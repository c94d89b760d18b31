import Chip8.Proofs.RunHistory
import Chip8.Session

/-!
# The summary of a run

A run that ends has counted its cycles and says truly whether it halted, whatever the clock shows and whenever it
is asked to stop (`Run.summary_accounts_for_run`).
-/

namespace Chip8

namespace Machine

theorem length_words_le (m : Machine) (h : List Action) : (m.words h).length ≤ h.countP Action.isCycle := by
  induction h generalizing m with
  | nil => exact Nat.le_refl 0
  | cons a rest ih =>
    have later := ih (m.act a)
    rw [words, List.length_append, List.countP_cons]
    by_cases isCycle : a = .cycle
    · subst isCycle
      have one : (m.executes .cycle).length ≤ 1 := by
        simp only [executes]
        split <;> simp
      simp only [Action.isCycle, ↓reduceIte]
      omega
    · rw [executes_outside m isCycle, List.length_nil]
      omega

/-- A machine that begins without empty words halts on five of them. -/
theorem EndsIn.five_empty {m : Machine} {h : List Action} (begins : m.emptyRow = 0) (ends : m.EndsIn .halted h) :
    List.replicate 5 0 <:+ m.words h := by
  obtain ⟨g, k, rfl, -, halted, touches⟩ := ends
  have counts : m.Counts [] := by
    unfold Counts
    rw [begins]
    rfl
  have countsThere : (m.through g).Counts (m.words g) := counts.through g
  obtain ⟨isEmpty, four, -⟩ := (outcome_eq_halted_iff _).mp halted
  rw [countsThere.le_iff (by decide), suffix_iff_le_emptyRowAtEnd] at four
  rw [words_append, words, executes_cycle_of_empty isEmpty, words_outside _ (outside_of_touches touches),
    List.append_nil, suffix_iff_le_emptyRowAtEnd, emptyRowAtEnd_concat, if_pos rfl]
  omega

end Machine

namespace Run

/-- A run that ends, not by a failure of its machine, ends with the machine that a list of cycles and ticks leaves
behind, among which come the touches of other threads. Its summary counts these cycles. All of them but possibly
the last were done; the run halted if the last one did, and nothing but touches came behind that one. A run that did
not halt saw the wish to stop. From any moment at which it is wished to stop the run begins one more cycle and one
more tick at most, and three steps later it is over; if it was wished before, there is neither. If no empty word had
been met before, a run that halts has taken five cycles at least, the last five on empty words. -/
theorem summary_accounts_for_run (m : Machine) (period now : Nat) (log : Array Event) (moves : List Move)
    (how : Ending) (whole : how ≠ .broken) (ended : ((spaced m period now log).after moves).phase = .ended how) :
    let start := spaced m period now log
    let r := start.after moves
    let h := start.history moves
    (r.machine = m.through h ∧ (∀ a ∈ h, a = .cycle ∨ a = .tick ∨ ∃ t, a = .touch t) ∧
      h.filterMap Action.touch? = moves.filterMap Move.touch?) ∧
    (∀ clock stage, Session.summary ⟨clock, stage, r⟩ = .ok ⟨h.countP Action.isCycle, how = .halted⟩) ∧
    (∀ f ∈ (m.trace h).dropLast, f.outcome = .done) ∧
    (how = .halted ↔ ∃ f ∈ (m.trace h).getLast?, f.outcome = .halted) ∧
    (how = .halted → ∃ g k, h = g ++ .cycle :: k ∧ ∀ a ∈ k, ∃ t, a = .touch t) ∧
    (how ≠ .halted → ∃ before time rest, moves = before ++ .step time :: rest ∧
      (start.after before).phase = .polling ∧ (start.after before).machine.stopping = true) ∧
    (∀ before later, (start.after before).machine.stopping = true →
      ((start.after before).history later).countP Action.isCycle ≤ 1 ∧
      ((start.after before).history later).countP Action.isTick ≤ 1 ∧
      (3 ≤ later.countP Move.isStep → ∃ ending, (start.after (before ++ later)).phase = .ended ending)) ∧
    (m.stopping = true → h.countP Action.isCycle = 0 ∧ h.countP Action.isTick = 0 ∧ how ≠ .halted) ∧
    (m.emptyRow = 0 → how = .halted → 5 ≤ h.countP Action.isCycle ∧ List.replicate 5 0 <:+ m.words h) := by
  intro start r h
  have account : r.Account m h := (account_spaced m period now log).after moves
  have counted : r.cycles = h.countP Action.isCycle := by rw [account.cycles, Machine.length_trace]
  have done (other : how ≠ .halted) : ∀ f ∈ m.trace h, f.outcome = .done :=
    account.all_done (by simp [r, start, ended, other]) (by simp [r, start, ended, whole])
  have halts (is : how = .halted) : m.EndsIn .halted h := account.halts (is ▸ ended)
  refine ⟨⟨machine_after start moves, fun a member => mem_history member, touches_history start moves⟩,
    ?_, ?_, ?_, ?_, ?_, ?_, ?_, ?_⟩
  · intro clock stage
    cases how with
    | broken => contradiction
    | _ => simp [Session.summary, r, start, ended, ← counted]
  · exact account.done_before_last
  · constructor
    · intro is
      obtain ⟨earlier, last, trace, -, halted⟩ := (halts is).trace
      exact ⟨last, by simp [trace], halted⟩
    · rintro ⟨f, member, halted⟩
      by_cases is : how = .halted
      · exact is
      · have isDone := done is f (List.mem_of_getLast? member)
        rw [halted] at isDone
        cases isDone
  · intro is
    obtain ⟨g, k, split, -, -, touches⟩ := halts is
    exact ⟨g, k, split, touches⟩
  · intro other
    have stopped : how = .stopped := by
      cases how with
      | stopped => rfl
      | halted => contradiction
      | broken => contradiction
    exact stopped_at_check (by simp [start, spaced, Run.start]) (stopped ▸ ended)
  · intro before later asked
    obtain ⟨cycles, ticks, steps⟩ := stopped_soon asked later
    obtain ⟨oneCycle, oneTick, threeSteps⟩ := (start.after before).phase.left_le
    refine ⟨by omega, by omega, fun three => ?_⟩
    rw [after_append]
    exact Phase.ended_of_stepsLeft (by omega)
  · intro asked
    obtain ⟨noCycle, noTick⟩ := asked_before asked period now log moves
    refine ⟨noCycle, noTick, fun is => ?_⟩
    have some := (halts is).cycled
    rw [noCycle] at some
    cases some
  · intro begins is
    have five := (halts is).five_empty begins
    refine ⟨?_, five⟩
    have long := five.length_le
    have words := m.length_words_le h
    rw [List.length_replicate] at long
    omega

/-- Four empty words, then a fifth cycle that is due together with a tick, and the wish to stop just before it. -/
def raced : List Move :=
  (List.replicate 12 (.step 0)) ++ [.step 20000000, .touch .stop, .step 20000000]

theorem summary_of_raced :
    let r := (spaced (Machine.fresh .default []) 0 0 #[]).after raced
    r.phase = .ended .halted ∧ Session.summary ⟨defaultClock, .running, r⟩ = .ok ⟨5, true⟩ := by
  have ended : ((spaced (Machine.fresh .default []) 0 0 #[]).after raced).phase = .ended .halted := by decide +kernel
  have five : ((spaced (Machine.fresh .default []) 0 0 #[]).history raced).countP Action.isCycle = 5 := by
    decide +kernel
  have told := (summary_accounts_for_run (Machine.fresh .default []) 0 0 #[] raced .halted (by decide) ended).2.1
    defaultClock .running
  rw [five] at told
  exact ⟨ended, told⟩

end Run
end Chip8
