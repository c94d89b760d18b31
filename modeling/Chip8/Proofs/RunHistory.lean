import Chip8.Proofs.EmptyRows
import Chip8.Proofs.Moves

/-!
# What a run does to its machine

The moves of a run come down to a history of its machine: the cycles and ticks that the run takes, among the
touches of other threads (`Run.history`). At every moment the run accounts for this history (`Run.Account`): its
machine is the one that the history leaves behind, it has counted the cycles, and all of them were done, but for
one that ended the run. A run that is asked to stop takes one more cycle and one more tick at most
(`Run.stopped_soon`).
-/

namespace Chip8

def Move.touch? : Move → Option Touch
  | .step _ => none
  | .touch t => some t

def Move.isStep : Move → Bool
  | .step _ => true
  | .touch _ => false

namespace Run

/-- A run that begins at a time and takes its cycles a period apart. -/
def spaced (m : Machine) (period now : Nat) (log : Array Event) : Run :=
  { Run.start m defaultClock now log with period }

theorem start_eq_spaced (m : Machine) (clock : UInt32) (now : Nat) (log : Array Event) :
    Run.start m clock now log = spaced m (cyclePeriod clock) now log := rfl

/-- What a move does to the machine. A cycle that waits for a key has not happened yet. -/
def does (r : Run) : Move → List Action
  | .touch t => [.touch t]
  | .step _ =>
    match r.phase with
    | .cycling => if r.machine.wouldWait then [] else [.cycle]
    | .ticking => if r.tickDue then [.tick] else []
    | _ => []

def history (r : Run) : List Move → List Action
  | [] => []
  | a :: rest => r.does a ++ (r.move a).history rest

theorem after_append (r : Run) (moves more : List Move) : r.after (moves ++ more) = (r.after moves).after more := by
  induction moves generalizing r with
  | nil => rfl
  | cons a rest ih => exact ih (r.move a)

/-! ## The steps of a run by their phase -/

theorem step_polling {r : Run} (polling : r.phase = .polling) (now : Nat) :
    r.does (.step now) = [] ∧ r.step now = r.poll now := by
  simp [does, step, polling]

theorem step_ticking {r : Run} (ticking : r.phase = .ticking) (now : Nat) :
    r.does (.step now) = (if r.tickDue then [.tick] else []) ∧ r.step now = r.tick := by
  simp [does, step, ticking]

theorem step_ended {r : Run} {how : Ending} (ended : r.phase = .ended how) (now : Nat) :
    r.does (.step now) = [] ∧ r.step now = r := by
  simp [does, step, ended]

/-- The ways in which a run goes on when a cycle is due. -/
theorem step_cycling {r : Run} (cycling : r.phase = .cycling) (now : Nat) :
    (r.machine.cycle.outcome = .waiting ∧ r.does (.step now) = [] ∧ r.step now = r) ∨
    (r.does (.step now) = [.cycle] ∧ (r.step now).machine = r.machine.cycle.machine ∧
      (r.step now).cycles = r.cycles + 1 ∧
      ((r.machine.cycle.outcome = .done ∧ (r.step now).phase = .ticking) ∨
        (r.machine.cycle.outcome = .halted ∧ (r.step now).phase = .ended .halted) ∨
        (r.machine.cycle.outcome = .overflow ∧ (r.step now).phase = .ended .broken))) := by
  have takes : r.step now = r.cycle := by simp [step, cycling]
  have goes (other : r.machine.cycle.outcome ≠ .waiting) : r.does (.step now) = [.cycle] := by
    rw [ne_eq, Machine.outcome_eq_waiting_iff] at other
    simp [does, cycling, other]
  rw [takes]
  rcases r.cycle_cases with ⟨out, eq⟩ | ⟨out, eq⟩ | ⟨out, eq⟩ | ⟨out, eq⟩ <;> rw [eq]
  · exact .inr ⟨goes (by simp [out]), rfl, rfl, .inl ⟨out, rfl⟩⟩
  · exact .inr ⟨goes (by simp [out]), rfl, rfl, .inr (.inl ⟨out, rfl⟩)⟩
  · refine .inl ⟨out, ?_, rfl⟩
    simp [does, cycling, (Machine.outcome_eq_waiting_iff _).mp out]
  · exact .inr ⟨goes (by simp [out]), rfl, rfl, .inr (.inr ⟨out, rfl⟩)⟩

theorem machine_move (r : Run) (a : Move) : (r.move a).machine = r.machine.through (r.does a) := by
  cases a with
  | touch t => rfl
  | step now =>
    show (r.step now).machine = _
    cases phase : r.phase with
    | polling =>
      obtain ⟨none, eq⟩ := step_polling phase now
      rw [none, eq]
      unfold poll
      split <;> rfl
    | cycling =>
      rcases step_cycling phase now with ⟨-, none, eq⟩ | ⟨one, machine, -, -⟩
      · rw [none, eq]
        rfl
      · rw [one, machine]
        rfl
    | ticking =>
      obtain ⟨does, eq⟩ := step_ticking phase now
      rw [does, eq]
      unfold tick
      split <;> rfl
    | ended how =>
      obtain ⟨none, eq⟩ := step_ended phase now
      rw [none, eq]
      rfl

theorem machine_after (r : Run) (moves : List Move) :
    (r.after moves).machine = r.machine.through (r.history moves) := by
  induction moves generalizing r with
  | nil => rfl
  | cons a rest ih => rw [after, history, ih, machine_move, Machine.through_append]

theorem does_step (r : Run) (now : Nat) :
    r.does (.step now) = [] ∨ r.does (.step now) = [.cycle] ∨ r.does (.step now) = [.tick] := by
  cases phase : r.phase with
  | polling => exact .inl (step_polling phase now).1
  | cycling =>
    rcases step_cycling phase now with ⟨-, none, -⟩ | ⟨one, -, -, -⟩
    · exact .inl none
    · exact .inr (.inl one)
  | ticking =>
    rw [(step_ticking phase now).1]
    split
    · exact .inr (.inr rfl)
    · exact .inl rfl
  | ended how => exact .inl (step_ended phase now).1

/-- A run only cycles and ticks, and among that come the touches of the other threads. -/
theorem mem_history {r : Run} {moves : List Move} {a : Action} (member : a ∈ r.history moves) :
    a = .cycle ∨ a = .tick ∨ ∃ t, a = .touch t := by
  induction moves generalizing r with
  | nil => cases member
  | cons b rest ih =>
    rcases List.mem_append.mp member with now | later
    · cases b with
      | touch t => exact .inr (.inr ⟨t, List.mem_singleton.mp now⟩)
      | step time =>
        rcases r.does_step time with none | one | one
        · rw [none] at now
          cases now
        · rw [one] at now
          exact .inl (List.mem_singleton.mp now)
        · rw [one] at now
          exact .inr (.inl (List.mem_singleton.mp now))
    · exact ih later

theorem touches_does (r : Run) (a : Move) : (r.does a).filterMap Action.touch? = a.touch?.toList := by
  cases a with
  | touch t => rfl
  | step now => rcases r.does_step now with eq | eq | eq <;> rw [eq] <;> rfl

theorem touches_history (r : Run) (moves : List Move) :
    (r.history moves).filterMap Action.touch? = moves.filterMap Move.touch? := by
  induction moves generalizing r with
  | nil => rfl
  | cons a rest ih =>
    rw [history, List.filterMap_append, touches_does, ih, List.filterMap_cons]
    cases a.touch? <;> rfl

theorem touch_mem_moves {r : Run} {moves : List Move} {t : Touch} (member : .touch t ∈ r.history moves) :
    .touch t ∈ moves := by
  have touched : t ∈ (r.history moves).filterMap Action.touch? := List.mem_filterMap.mpr ⟨_, member, rfl⟩
  rw [touches_history] at touched
  obtain ⟨a, member, is⟩ := List.mem_filterMap.mp touched
  cases a with
  | step now => cases is
  | touch u =>
    cases is
    exact member

/-! ## The account of a run -/

end Run

namespace Machine

theorem outside_of_touches {k : List Action} (touches : ∀ a ∈ k, ∃ t, a = .touch t) : ∀ a ∈ k, a ≠ .cycle := by
  intro a member
  obtain ⟨t, rfl⟩ := touches a member
  simp

/-- Every cycle of a history was done, but for the last one, which came out in another way; behind it there are
only touches. -/
def EndsIn (m : Machine) (o : Outcome) (h : List Action) : Prop :=
  ∃ g k, h = g ++ .cycle :: k ∧ (∀ f ∈ m.trace g, f.outcome = .done) ∧ (m.through g).cycle.outcome = o ∧
    ∀ a ∈ k, ∃ t, a = .touch t

theorem EndsIn.touch {m : Machine} {o : Outcome} {h : List Action} (ends : m.EndsIn o h) (t : Touch) :
    m.EndsIn o (h ++ [.touch t]) := by
  obtain ⟨g, k, split, done, out, touches⟩ := ends
  refine ⟨g, k ++ [.touch t], by simp [split], done, out, ?_⟩
  intro a member
  rcases List.mem_append.mp member with old | new
  · exact touches a old
  · exact ⟨t, List.mem_singleton.mp new⟩

theorem EndsIn.trace {m : Machine} {o : Outcome} {h : List Action} (ends : m.EndsIn o h) :
    ∃ done last, m.trace h = done ++ [last] ∧ (∀ f ∈ done, f.outcome = .done) ∧ last.outcome = o := by
  obtain ⟨g, k, rfl, done, out, touches⟩ := ends
  refine ⟨m.trace g, (m.through g).fetched, ?_, done, out⟩
  rw [trace_append, Machine.trace, trace_outside _ (outside_of_touches touches)]
  rfl

theorem EndsIn.cycled {m : Machine} {o : Outcome} {h : List Action} (ends : m.EndsIn o h) :
    0 < h.countP Action.isCycle := by
  obtain ⟨g, k, rfl, -⟩ := ends
  exact List.countP_pos_iff.mpr ⟨.cycle, by simp, rfl⟩

end Machine

/-- How the cycles of a history came out when a run has arrived at a phase. -/
def Phase.Tells (m : Machine) (h : List Action) : Phase → Prop
  | .ended .halted => m.EndsIn .halted h
  | .ended .broken => m.EndsIn .overflow h
  | _ => ∀ f ∈ m.trace h, f.outcome = .done

namespace Run

/-- What a run has to show for a history of a machine. -/
structure Account (m : Machine) (h : List Action) (r : Run) : Prop where
  machine : r.machine = m.through h
  cycles : r.cycles = (m.trace h).length
  outcomes : r.phase.Tells m h

theorem account_spaced (m : Machine) (period now : Nat) (log : Array Event) :
    (spaced m period now log).Account m [] :=
  ⟨rfl, rfl, fun _ member => nomatch member⟩

theorem Account.all_done {m : Machine} {h : List Action} {r : Run} (account : r.Account m h)
    (on : r.phase ≠ .ended .halted) (whole : r.phase ≠ .ended .broken) : ∀ f ∈ m.trace h, f.outcome = .done := by
  have outcomes := account.outcomes
  unfold Phase.Tells at outcomes
  split at outcomes
  · contradiction
  · contradiction
  · exact outcomes

theorem Account.halts {m : Machine} {h : List Action} {r : Run} (account : r.Account m h)
    (halted : r.phase = .ended .halted) : m.EndsIn .halted h := by
  have outcomes := account.outcomes
  rw [halted] at outcomes
  exact outcomes

theorem Account.quiet {m : Machine} {h g : List Action} {r r' : Run} (account : r.Account m h)
    (machine : r'.machine = r.machine.through g) (cycles : r'.cycles = r.cycles) (quiet : ∀ a ∈ g, a ≠ .cycle)
    (outcomes : r'.phase.Tells m (h ++ g)) : r'.Account m (h ++ g) := by
  refine ⟨?_, ?_, outcomes⟩
  · rw [machine, account.machine, Machine.through_append]
  · rw [cycles, account.cycles, Machine.trace_append, Machine.trace_outside _ quiet, List.append_nil]

theorem Account.touch {m : Machine} {h : List Action} {r : Run} (account : r.Account m h) (t : Touch) :
    (r.mapMachine (·.touch t)).Account m (h ++ [.touch t]) := by
  have outside : ∀ a ∈ [Action.touch t], a ≠ .cycle := by simp
  refine account.quiet rfl rfl outside ?_
  have outcomes := account.outcomes
  show r.phase.Tells m (h ++ [.touch t])
  unfold Phase.Tells at outcomes ⊢
  split at outcomes
  · exact outcomes.touch t
  · exact outcomes.touch t
  · rw [Machine.trace_append, Machine.trace_outside _ outside, List.append_nil]
    exact outcomes

theorem Account.step {m : Machine} {h : List Action} {r : Run} (account : r.Account m h) (now : Nat) :
    (r.step now).Account m (h ++ r.does (.step now)) := by
  have machine : (r.step now).machine = r.machine.through (r.does (.step now)) := r.machine_move (.step now)
  cases phase : r.phase with
  | polling =>
    obtain ⟨none, eq⟩ := step_polling phase now
    have done := account.all_done (by simp [phase]) (by simp [phase])
    rw [none, eq, List.append_nil]
    unfold poll
    split
    · exact ⟨account.machine, account.cycles, done⟩
    · refine ⟨account.machine, account.cycles, ?_⟩
      cases due : r.cycleDue now with
      | true => exact done
      | false => exact done
  | cycling =>
    have done := account.all_done (by simp [phase]) (by simp [phase])
    rcases step_cycling phase now with ⟨-, none, eq⟩ | ⟨one, -, cycles, out⟩
    · rw [none, eq, List.append_nil]
      exact account
    · rw [one] at machine ⊢
      have fetched : m.trace (h ++ [.cycle]) = m.trace h ++ [r.machine.fetched] := by
        rw [Machine.trace_append, Machine.trace_singleton, ← account.machine]
        rfl
      have last (o : Outcome) (is : r.machine.cycle.outcome = o) : m.EndsIn o (h ++ [.cycle]) :=
        ⟨h, [], rfl, done, by rw [← account.machine, is], fun a member => nomatch member⟩
      refine ⟨?_, ?_, ?_⟩
      · rw [machine, account.machine, Machine.through_append]
      · rw [cycles, fetched, List.length_append, account.cycles]
        rfl
      · rcases out with ⟨out, next⟩ | ⟨out, next⟩ | ⟨out, next⟩ <;> rw [next]
        · intro f member
          rw [fetched] at member
          rcases List.mem_append.mp member with old | new
          · exact done f old
          · rw [List.mem_singleton.mp new]
            exact out
        · exact last .halted out
        · exact last .overflow out
  | ticking =>
    obtain ⟨does, eq⟩ := step_ticking phase now
    have done := account.all_done (by simp [phase]) (by simp [phase])
    have outside : ∀ a ∈ r.does (.step now), a ≠ .cycle := by
      rw [does]
      split <;> simp
    refine account.quiet machine ?_ outside ?_
    · rw [eq]
      unfold tick
      split <;> rfl
    · have polls : (r.step now).phase = .polling := by
        rw [eq]
        unfold tick
        split <;> rfl
      rw [polls]
      show ∀ f ∈ m.trace (h ++ r.does (.step now)), f.outcome = .done
      rw [Machine.trace_append, Machine.trace_outside _ outside, List.append_nil]
      exact done
  | ended how =>
    obtain ⟨none, eq⟩ := step_ended phase now
    rw [none, eq, List.append_nil]
    exact account

theorem Account.after {m : Machine} {h : List Action} {r : Run} (account : r.Account m h) (moves : List Move) :
    (r.after moves).Account m (h ++ r.history moves) := by
  induction moves generalizing h r with
  | nil => simpa [Run.after, history] using account
  | cons a rest ih =>
    have moved : (r.move a).Account m (h ++ r.does a) := by
      cases a with
      | step now => exact account.step now
      | touch t => exact account.touch t
    rw [Run.after, history, ← List.append_assoc]
    exact ih moved

theorem Account.cycles_le {m : Machine} {h : List Action} {r : Run} (account : r.Account m h) (moves : List Move) :
    r.cycles ≤ (r.after moves).cycles := by
  rw [(account.after moves).cycles, account.cycles, Machine.trace_append, List.length_append]
  exact Nat.le_add_right _ _

/-- Whatever the phase, all cycles but possibly the last were done. -/
theorem Account.done_before_last {m : Machine} {h : List Action} {r : Run} (account : r.Account m h) :
    ∀ f ∈ (m.trace h).dropLast, f.outcome = .done := by
  have outcomes := account.outcomes
  unfold Phase.Tells at outcomes
  split at outcomes
  case h_1 | h_2 =>
    obtain ⟨earlier, last, trace, done, -⟩ := outcomes.trace
    rw [trace, List.dropLast_concat]
    exact done
  case h_3 => exact fun f member => outcomes f (List.dropLast_subset _ member)

theorem Account.nothing_behind {m : Machine} {h : List Action} {r : Run} (account : r.Account m h)
    {front back : List Fetched} {f : Fetched} (trace : m.trace h = front ++ f :: back) (undone : f.outcome ≠ .done) :
    back = [] := by
  cases back with
  | nil => rfl
  | cons g rest =>
    have early : f ∈ (m.trace h).dropLast := by
      rw [trace, List.dropLast_append_of_ne_nil (List.cons_ne_nil _ _), List.dropLast_cons_of_ne_nil (List.cons_ne_nil _ _)]
      simp
    exact absurd (account.done_before_last f early) undone

/-- Only a check that sees the wish to stop ends a run as stopped. -/
theorem stopped_step {r : Run} {a : Move} (on : r.phase ≠ .ended .stopped)
    (ended : (r.move a).phase = .ended .stopped) :
    ∃ now, a = .step now ∧ r.phase = .polling ∧ r.machine.stopping = true := by
  cases a with
  | touch t => exact absurd ended on
  | step now =>
    change (r.step now).phase = .ended .stopped at ended
    refine ⟨now, rfl, ?_⟩
    cases phase : r.phase with
    | polling =>
      rw [(step_polling phase now).2, poll] at ended
      split at ended
      case isTrue asked => exact ⟨rfl, asked⟩
      case isFalse => cases due : r.cycleDue now <;> simp [due] at ended
    | cycling =>
      rcases step_cycling phase now with ⟨-, -, eq⟩ | ⟨-, -, -, out⟩
      · rw [eq, phase] at ended
        cases ended
      · rcases out with ⟨-, next⟩ | ⟨-, next⟩ | ⟨-, next⟩ <;> rw [next] at ended <;> cases ended
    | ticking =>
      rw [(step_ticking phase now).2, tick] at ended
      split at ended <;> cases ended
    | ended how =>
      rw [(step_ended phase now).2] at ended
      exact absurd ended on

theorem stopped_at_check {r : Run} (on : r.phase ≠ .ended .stopped) {moves : List Move}
    (ended : (r.after moves).phase = .ended .stopped) :
    ∃ before now rest, moves = before ++ .step now :: rest ∧ (r.after before).phase = .polling ∧
      (r.after before).machine.stopping = true := by
  induction moves generalizing r with
  | nil => exact absurd ended on
  | cons a rest ih =>
    by_cases past : (r.move a).phase = .ended .stopped
    · obtain ⟨now, rfl, polling, asked⟩ := stopped_step on past
      exact ⟨[], now, rest, rfl, polling, asked⟩
    · obtain ⟨before, now, later, split, polling, asked⟩ := ih past ended
      exact ⟨a :: before, now, later, by rw [split, List.cons_append], polling, asked⟩

/-! ## After the wish to stop -/

end Run

namespace Phase

/-- The cycles that a run still takes when it was asked to stop. -/
def cyclesLeft : Phase → Nat
  | .cycling => 1
  | _ => 0

def ticksLeft : Phase → Nat
  | .cycling | .ticking => 1
  | _ => 0

/-- The steps that it still takes. -/
def stepsLeft : Phase → Nat
  | .ended _ => 0
  | .polling => 1
  | .ticking => 2
  | .cycling => 3

theorem left_le (p : Phase) : p.cyclesLeft ≤ 1 ∧ p.ticksLeft ≤ 1 ∧ p.stepsLeft ≤ 3 := by
  cases p <;> simp [cyclesLeft, ticksLeft, stepsLeft]

theorem ended_of_stepsLeft {p : Phase} (past : p.stepsLeft = 0) : ∃ how, p = .ended how := by
  cases p with
  | ended how => exact ⟨how, rfl⟩
  | _ => cases past

end Phase

namespace Run

/-- Nobody waits for a key when asked to stop. -/
theorem goes_when_asked {m : Machine} (asked : m.stopping = true) : m.cycle.outcome ≠ .waiting := by
  rw [ne_eq, Machine.outcome_eq_waiting_iff, Machine.wouldWait]
  split <;> simp [asked]

theorem asked_step {r : Run} (asked : r.machine.stopping = true) (now : Nat) :
    (r.does (.step now)).countP Action.isCycle + (r.step now).phase.cyclesLeft ≤ r.phase.cyclesLeft ∧
    (r.does (.step now)).countP Action.isTick + (r.step now).phase.ticksLeft ≤ r.phase.ticksLeft ∧
    (r.step now).phase.stepsLeft ≤ r.phase.stepsLeft - 1 := by
  cases phase : r.phase with
  | polling =>
    obtain ⟨none, eq⟩ := step_polling phase now
    rw [none, eq, poll, if_pos asked]
    simp [Phase.cyclesLeft, Phase.ticksLeft, Phase.stepsLeft]
  | cycling =>
    rcases step_cycling phase now with ⟨waits, -, -⟩ | ⟨one, -, -, out⟩
    · exact absurd waits (goes_when_asked asked)
    · rw [one]
      rcases out with ⟨-, next⟩ | ⟨-, next⟩ | ⟨-, next⟩ <;> rw [next] <;>
        simp [Phase.cyclesLeft, Phase.ticksLeft, Phase.stepsLeft, Action.isCycle, Action.isTick]
  | ticking =>
    obtain ⟨does, eq⟩ := step_ticking phase now
    rw [does, eq, tick]
    split <;> simp [Phase.cyclesLeft, Phase.ticksLeft, Phase.stepsLeft, Action.isCycle, Action.isTick]
  | ended how =>
    obtain ⟨none, eq⟩ := step_ended phase now
    rw [none, eq, phase]
    simp [Phase.stepsLeft]

/-- A run that is asked to stop begins one cycle and one tick at most, and three steps end it. -/
theorem stopped_soon {r : Run} (asked : r.machine.stopping = true) (moves : List Move) :
    (r.history moves).countP Action.isCycle ≤ r.phase.cyclesLeft ∧
    (r.history moves).countP Action.isTick ≤ r.phase.ticksLeft ∧
    (r.after moves).phase.stepsLeft ≤ r.phase.stepsLeft - moves.countP Move.isStep := by
  induction moves generalizing r with
  | nil => exact ⟨Nat.zero_le _, Nat.zero_le _, Nat.le_refl _⟩
  | cons a rest ih =>
    have still : (r.move a).machine.stopping = true := by
      rw [machine_move]
      exact Machine.stopping_through asked _
    obtain ⟨cycles, ticks, steps⟩ := ih still
    rw [history, List.countP_append, List.countP_append, after, List.countP_cons]
    cases a with
    | touch t =>
      change _ ≤ r.phase.cyclesLeft at cycles
      change _ ≤ r.phase.ticksLeft at ticks
      change _ ≤ r.phase.stepsLeft - _ at steps
      simpa [does, Action.isCycle, Action.isTick, Move.isStep] using ⟨cycles, ticks, steps⟩
    | step now =>
      obtain ⟨firstCycles, firstTicks, firstSteps⟩ := asked_step asked now
      change _ ≤ (r.step now).phase.cyclesLeft at cycles
      change _ ≤ (r.step now).phase.ticksLeft at ticks
      change _ ≤ (r.step now).phase.stepsLeft - _ at steps
      simp only [Move.isStep, ↓reduceIte]
      omega

/-- A run whose machine was asked to stop before does nothing. -/
theorem asked_before {m : Machine} (asked : m.stopping = true) (period now : Nat) (log : Array Event)
    (moves : List Move) :
    ((spaced m period now log).history moves).countP Action.isCycle = 0 ∧
      ((spaced m period now log).history moves).countP Action.isTick = 0 := by
  obtain ⟨cycles, ticks, -⟩ := stopped_soon (r := spaced m period now log) asked moves
  exact ⟨Nat.le_zero.mp cycles, Nat.le_zero.mp ticks⟩

end Run
end Chip8
