import Chip8.Proofs.NonInterference

/-!
# The outcome of a run does not depend on the clock

Two runs of a program that does not listen fetch the same words, one after another, whatever their clocks and
however their ticks fall. So if one of them halts, the other goes on until it has taken as many cycles, and then
halts in the same way (`Machine.timers_and_keys_do_not_interfere`).
-/

namespace Chip8

namespace Machine

theorem stopping_unseen (m : Machine) {a : Action} (unseen : a.unseen = true) : (m.act a).stopping = m.stopping := by
  show (m.act a).hushed.stopping = m.hushed.stopping
  rw [hushed_unseen m unseen]

theorem stopping_hidden (m : Machine) {h : List Action} (hidden : Hidden h) : (m.through h).stopping = m.stopping := by
  induction h generalizing m with
  | nil => rfl
  | cons a rest ih =>
    rw [through, ih _ fun b member => hidden b (List.mem_cons_of_mem a member)]
    rcases hidden a List.mem_cons_self with rfl | unseen
    · exact m.stopping_cycle
    · exact m.stopping_unseen unseen

end Machine

/-- How many steps there are at most until the next cycle, when the clock is late enough. -/
def Phase.untilCycle : Phase → Nat
  | .ended _ => 0
  | .cycling => 1
  | .polling => 2
  | .ticking => 3

namespace Run

/-- Moves in which other threads only touch the keypad. -/
def KeysOnly (moves : List Move) : Prop := ∀ t, .touch t ∈ moves → t.isKey = true

theorem hidden_history {r : Run} {moves : List Move} (keys : KeysOnly moves) : Machine.Hidden (r.history moves) := by
  intro a member
  rcases mem_history member with rfl | rfl | ⟨t, rfl⟩
  · exact .inl rfl
  · exact .inr rfl
  · exact .inr (keys t (touch_mem_moves member))

/-! ## Schedules -/

/-- The first moves of an unending sequence. -/
def first (moves : Nat → Move) (j : Nat) : List Move := (List.range j).map moves

def since (moves : Nat → Move) (k : Nat) : Nat → Move := fun j => moves (k + j)

/-- Moves without end: other threads only touch the keypad, the run steps again and again, and the clock passes
every time. -/
structure Schedule (moves : Nat → Move) : Prop where
  keys : ∀ j t, moves j = .touch t → t.isKey = true
  steps : ∀ k, ∃ j, k ≤ j ∧ (moves j).isStep = true
  passes : ∀ time, ∃ k, ∀ j, k ≤ j → ∀ now, moves j = .step now → time ≤ now

theorem first_add (moves : Nat → Move) (k l : Nat) :
    first moves (k + l) = first moves k ++ first (since moves k) l := by
  rw [first, List.range_add, List.map_append, List.map_map]
  rfl

theorem take_first (moves : Nat → Move) (i j : Nat) : (first moves j).take i = first moves (min i j) := by
  rw [first, ← List.map_take, List.take_range, first]

theorem mem_first {moves : Nat → Move} {j : Nat} {a : Move} (member : a ∈ first moves j) : ∃ i, moves i = a := by
  obtain ⟨i, -, is⟩ := List.mem_map.mp member
  exact ⟨i, is⟩

namespace Schedule

variable {moves : Nat → Move}

theorem keysOnly (schedule : Schedule moves) (j : Nat) : KeysOnly (first moves j) := by
  intro t member
  obtain ⟨i, is⟩ := mem_first member
  exact schedule.keys i t is

theorem since (schedule : Schedule moves) (k : Nat) : Schedule (since moves k) := by
  refine ⟨fun j => schedule.keys (k + j), ?_, ?_⟩
  · intro l
    obtain ⟨j, later, isStep⟩ := schedule.steps (k + l)
    have place : k + (j - k) = j := by omega
    exact ⟨j - k, by omega, by rw [Run.since, place]; exact isStep⟩
  · intro time
    obtain ⟨l, late⟩ := schedule.passes time
    exact ⟨l, fun j later => late (k + j) (by omega)⟩

theorem exists_steps (schedule : Schedule moves) (count : Nat) : ∃ l, count ≤ (first moves l).countP Move.isStep := by
  induction count with
  | zero => exact ⟨0, Nat.zero_le _⟩
  | succ count ih =>
    obtain ⟨l, enough⟩ := ih
    obtain ⟨j, later, isStep⟩ := schedule.steps l
    refine ⟨j + 1, ?_⟩
    have before : first moves j = first moves l ++ first (Run.since moves l) (j - l) := by
      rw [← first_add, Nat.add_sub_cancel' later]
    have step : first (Run.since moves j) 1 = [moves j] := rfl
    rw [first_add, before, step, List.countP_append, List.countP_append, List.countP_singleton, if_pos isStep]
    omega

theorem exists_late (schedule : Schedule moves) (time : Nat) :
    ∃ k l, (∀ now, .step now ∈ first (Run.since moves k) l → time ≤ now) ∧
      3 ≤ (first (Run.since moves k) l).countP Move.isStep := by
  obtain ⟨k, late⟩ := schedule.passes time
  obtain ⟨l, three⟩ := (schedule.since k).exists_steps 3
  refine ⟨k, l, ?_, three⟩
  intro now member
  obtain ⟨i, is⟩ := mem_first member
  exact late (k + i) (by omega) now is

end Schedule

/-! ## Going on -/

/-- A run that is on, that nobody wishes to stop, and that does not meet anything that listens. -/
structure Going (r : Run) : Prop where
  on : ∀ how, r.phase ≠ .ended how
  unasked : r.machine.stopping = false
  deaf : r.machine.next.listens = false

def dueAt (r : Run) : Nat := r.lastCycle + r.period

/-- Every move of a run that is going takes a cycle or leaves it going; with the clock late enough, a step brings the
cycle nearer. -/
theorem Going.move {r : Run} (going : r.Going) {a : Move} (key : ∀ t, a = .touch t → t.isKey = true) :
    (r.move a).cycles = r.cycles + 1 ∨
    ((r.move a).Going ∧ (r.move a).cycles = r.cycles ∧ (r.move a).dueAt = r.dueAt ∧
      ((∀ now, a = .step now → r.dueAt ≤ now) →
        (r.move a).phase.untilCycle + (if a.isStep then 1 else 0) ≤ r.phase.untilCycle)) := by
  obtain ⟨on, unasked, deaf⟩ := going
  cases a with
  | touch t =>
    have unseen : (Action.touch t).unseen = true := key t rfl
    have same : (r.machine.touch t).hushed = r.machine.hushed := r.machine.hushed_unseen unseen
    refine .inr ⟨⟨on, (r.machine.stopping_unseen unseen).trans unasked, ?_⟩, rfl, rfl, fun _ => Nat.le_refl _⟩
    show (r.machine.touch t).next.listens = false
    rw [Machine.next_of_hushed same]
    exact deaf
  | step now =>
    show (r.step now).cycles = r.cycles + 1 ∨ (r.step now).Going ∧ (r.step now).cycles = r.cycles ∧
      (r.step now).dueAt = r.dueAt ∧ (_ → (r.step now).phase.untilCycle + 1 ≤ r.phase.untilCycle)
    cases phase : r.phase with
    | polling =>
      refine .inr ?_
      rw [(step_polling phase now).2, poll, if_neg (by simp [unasked])]
      refine ⟨⟨?_, unasked, deaf⟩, rfl, rfl, ?_⟩
      · intro how
        cases due : r.cycleDue now <;> simp
      · intro late
        have due : r.cycleDue now = true := by
          have late := late now rfl
          simp only [dueAt, cycleDue, decide_eq_true_eq] at late ⊢
          omega
        simp [due, Phase.untilCycle]
    | cycling =>
      rcases step_cycling phase now with ⟨waits, -, -⟩ | ⟨-, -, one, -⟩
      · rw [Machine.outcome_eq_waiting_iff, Machine.wouldWait_of_deaf deaf] at waits
        cases waits
      · exact .inl one
    | ticking =>
      refine .inr ?_
      rw [(step_ticking phase now).2, tick]
      split <;> exact ⟨⟨fun how ended => Phase.noConfusion ended, unasked, deaf⟩, rfl, rfl, fun _ => Nat.le_refl _⟩
    | ended how => exact absurd phase (on how)

theorem Going.cycles_late {r : Run} (going : r.Going) {moves : List Move} (keys : KeysOnly moves)
    (late : ∀ now, .step now ∈ moves → r.dueAt ≤ now) (enough : r.phase.untilCycle ≤ moves.countP Move.isStep) :
    ∃ i, (r.after (moves.take i)).cycles = r.cycles + 1 := by
  induction moves generalizing r with
  | nil =>
    cases phase : r.phase with
    | ended how => exact absurd phase (going.on how)
    | _ =>
      rw [phase] at enough
      cases enough
  | cons a rest ih =>
    have key : ∀ t, a = .touch t → t.isKey = true := fun t is => keys t (is ▸ List.mem_cons_self)
    rcases going.move key with one | ⟨still, cycles, due, nearer⟩
    · exact ⟨1, one⟩
    · have nearer := nearer fun now is => late now (is ▸ List.mem_cons_self)
      rw [List.countP_cons] at enough
      obtain ⟨i, one⟩ := ih still (fun t member => keys t (List.mem_cons_of_mem a member))
        (fun now member => due ▸ late now (List.mem_cons_of_mem a member)) (by omega)
      exact ⟨i + 1, by rw [List.take_succ_cons, after, one, cycles]⟩

theorem Going.cycles {r : Run} (going : r.Going) {early late : List Move} (keys : KeysOnly (early ++ late))
    (times : ∀ now, .step now ∈ late → r.dueAt ≤ now) (three : 3 ≤ late.countP Move.isStep) :
    ∃ i, (r.after ((early ++ late).take i)).cycles = r.cycles + 1 := by
  induction early generalizing r with
  | nil =>
    have near : r.phase.untilCycle ≤ 3 := by cases r.phase <;> simp [Phase.untilCycle]
    exact going.cycles_late keys times (Nat.le_trans near three)
  | cons a rest ih =>
    have key : ∀ t, a = .touch t → t.isKey = true := fun t is => keys t (is ▸ List.mem_cons_self)
    rcases going.move key with one | ⟨still, cycles, due, -⟩
    · exact ⟨1, one⟩
    · obtain ⟨i, one⟩ := ih still (fun t member => keys t (List.mem_cons_of_mem a member))
        (fun now member => due ▸ times now member)
      exact ⟨i + 1, by rw [List.cons_append, List.take_succ_cons, after, one, cycles]⟩

theorem Going.cycles_on_schedule {r : Run} (going : r.Going) {moves : Nat → Move} (schedule : Schedule moves) :
    ∃ j, (r.after (first moves j)).cycles = r.cycles + 1 := by
  obtain ⟨k, l, late, three⟩ := schedule.exists_late r.dueAt
  have keys := schedule.keysOnly (k + l)
  rw [first_add] at keys
  obtain ⟨i, one⟩ := going.cycles keys late three
  rw [← first_add, take_first] at one
  exact ⟨min i (k + l), one⟩

/-! ## Two runs -/

/-- A run that has halted by a history in which nothing listens. -/
structure HaltsDeaf (m : Machine) (h : List Action) (r : Run) : Prop where
  account : r.Account m h
  hidden : Machine.Hidden h
  deaf : ∀ f ∈ m.trace h, (Instruction.decode f.word).listens = false
  halted : r.phase = .ended .halted

/-- A run that nobody has asked to stop. -/
structure Unasked (m : Machine) (h : List Action) (r : Run) : Prop where
  account : r.Account m h
  hidden : Machine.Hidden h
  unasked : r.machine.stopping = false
  unstopped : r.phase ≠ .ended .stopped

theorem Unasked.after {m : Machine} {h : List Action} {r : Run} (run : r.Unasked m h) {moves : List Move}
    (keys : KeysOnly moves) : (r.after moves).Unasked m (h ++ r.history moves) := by
  have hiddenThere : Machine.Hidden (r.history moves) := hidden_history keys
  refine ⟨run.account.after moves, ?_, ?_, ?_⟩
  · intro a member
    rcases List.mem_append.mp member with old | new
    · exact run.hidden a old
    · exact hiddenThere a new
  · rw [machine_after, Machine.stopping_hidden _ hiddenThere]
    exact run.unasked
  · intro stopped
    obtain ⟨before, now, rest, split, -, asked⟩ := stopped_at_check run.unstopped stopped
    have keysBefore : KeysOnly before := fun t member => keys t (by rw [split]; exact List.mem_append_left _ member)
    rw [machine_after, Machine.stopping_hidden _ (hidden_history keysBefore), run.unasked] at asked
    cases asked

section

variable {m n : Machine} {h g : List Action} {r s : Run}

theorem HaltsDeaf.equal_cycles (run : r.HaltsDeaf m h) (same : m.hushed = n.hushed) (other : s.Unasked n g)
    (far : r.cycles ≤ s.cycles) : h.countP Action.isCycle = g.countP Action.isCycle := by
  obtain ⟨done, last, trace, -, lastHalted⟩ := (run.account.halts run.halted).trace
  rw [run.account.cycles, other.account.cycles, Machine.length_trace, Machine.length_trace] at far
  obtain ⟨early, late, rfl, count⟩ := Machine.exists_prefix_of_le far
  have earlyHidden : Machine.Hidden early := fun a member => other.hidden a (List.mem_append_left late member)
  obtain ⟨alike, -⟩ := Machine.trace_eq_of_hushed same run.hidden earlyHidden count.symm run.deaf
  -- the last of these cycles has halted the other run as well, so there is none behind it
  have whole : n.trace (early ++ late) = done ++ last :: (n.through early).trace late := by
    rw [Machine.trace_append, ← alike, trace, List.append_assoc, List.singleton_append]
  have none := other.account.nothing_behind whole (by simp [lastHalted])
  have noMore := (n.through early).length_trace late
  rw [none, List.length_nil] at noMore
  rw [List.countP_append, count, ← noMore, Nat.add_zero]

/-- A run that is as far as one that halted has halted in the same way. -/
theorem HaltsDeaf.alike (run : r.HaltsDeaf m h) (same : m.hushed = n.hushed) (other : s.Unasked n g)
    (far : r.cycles ≤ s.cycles) :
    s.phase = .ended .halted ∧ s.cycles = r.cycles ∧ r.machine.hushed = s.machine.hushed := by
  obtain ⟨done, last, trace, -, lastHalted⟩ := (run.account.halts run.halted).trace
  have equal := run.equal_cycles same other far
  obtain ⟨alike, left⟩ := Machine.trace_eq_of_hushed same run.hidden other.hidden equal run.deaf
  refine ⟨?_, ?_, ?_⟩
  · have member : last ∈ n.trace g := by simp [← alike, trace]
    have outcomes := other.account.outcomes
    unfold Phase.Tells at outcomes
    split at outcomes
    · assumption
    · obtain ⟨earlier, broken, traceToo, -, broke⟩ := outcomes.trace
      have lasts : [last] = [broken] := (List.append_inj' (trace.symm.trans (alike.trans traceToo)) rfl).2
      rw [← List.singleton_inj.mp lasts, lastHalted] at broke
      cases broke
    · have isDone := outcomes last member
      rw [lastHalted] at isDone
      cases isDone
  · rw [run.account.cycles, other.account.cycles, alike]
  · rw [run.account.machine, other.account.machine, left]

/-- A run that has taken fewer cycles than one that halted is going. -/
theorem HaltsDeaf.behind (run : r.HaltsDeaf m h) (same : m.hushed = n.hushed) (other : s.Unasked n g)
    (behind : s.cycles < r.cycles) : s.Going := by
  obtain ⟨account, hidden, deaf, -⟩ := run
  rw [account.cycles, other.account.cycles, Machine.length_trace, Machine.length_trace] at behind
  obtain ⟨early, before, rest, rfl, count, outside⟩ := Machine.exists_cycle_of_lt behind
  have earlyHidden : Machine.Hidden early := fun a member => hidden a (List.mem_append_left _ member)
  have unseen : ∀ a ∈ before, a.unseen = true := fun a member =>
    (hidden a (List.mem_append_right early (List.mem_append_left _ member))).resolve_left (outside a member)
  have next : m.trace (early ++ (before ++ .cycle :: rest)) = m.trace early ++
      ((m.through early).through before).fetched :: (((m.through early).through before).act .cycle).trace rest := by
    rw [Machine.trace_append, Machine.trace_first_cycle _ outside]
  obtain ⟨alike, left⟩ := Machine.trace_eq_of_hushed same earlyHidden other.hidden count fun f member =>
    deaf f (by rw [next]; exact List.mem_append_left _ member)
  -- the cycles so far are not the last ones of the run that halted
  have goes {o : Outcome} (undone : o ≠ .done) : ¬ n.EndsIn o g := by
    intro ends
    obtain ⟨earlier, last, trace, -, out⟩ := ends.trace
    rw [alike, trace, List.append_assoc, List.singleton_append] at next
    cases account.nothing_behind next (out ▸ undone)
  have outcomes := other.account.outcomes
  refine ⟨?_, other.unasked, ?_⟩
  · intro how phase
    rw [phase] at outcomes
    cases how with
    | stopped => exact other.unstopped phase
    | halted => exact goes (by decide) outcomes
    | broken => exact goes (by decide) outcomes
  · have there : s.machine.hushed = ((m.through early).through before).hushed := by
      rw [other.account.machine, ← left, Machine.hushed_through_unseen _ unseen]
    rw [Machine.next_of_hushed there]
    exact deaf ((m.through early).through before).fetched (by rw [next]; simp)

theorem HaltsDeaf.catches_up (run : r.HaltsDeaf m h) (same : m.hushed = n.hushed) {moves : Nat → Move}
    (schedule : Schedule moves) (other : s.Unasked n g) : ∃ j, r.cycles ≤ (s.after (first moves j)).cycles := by
  induction missing : r.cycles - s.cycles generalizing s g moves with
  | zero => exact ⟨0, Nat.le_of_sub_eq_zero missing⟩
  | succ fewer ih =>
    obtain ⟨k, one⟩ := (run.behind same other (by omega)).cycles_on_schedule schedule
    have there := other.after (schedule.keysOnly k)
    obtain ⟨j, enough⟩ := ih (schedule.since k) there (by omega)
    exact ⟨k + j, by rw [first_add, after_append]; exact enough⟩

end

/-- A run that has come to a halt with as many cycles as another, and with a machine that agrees. -/
structure HaltedLike (r s : Run) : Prop where
  halted : s.phase = .ended .halted
  cycles : s.cycles = r.cycles
  machine : r.machine.Agrees s.machine

theorem unasked_of_halted {m : Machine} {clock : UInt32} {now : Nat} {log : Array Event} {moves : List Move}
    (halted : ((start m clock now log).after moves).phase = .ended .halted) : m.stopping = false := by
  rw [start_eq_spaced] at halted
  cases asked : m.stopping with
  | false => rfl
  | true =>
    have some := (((account_spaced m (cyclePeriod clock) now log).after moves).halts halted).cycled
    rw [List.nil_append, (asked_before asked _ now log moves).1] at some
    cases some

end Run

namespace Machine

/-- Timers and keys do not interfere. Take two machines that agree, and two histories of cycles, ticks and keys with
equally many cycles: if no instruction of the first listens, they fetch the same words at the same addresses,
their cycles come out alike, and the machines agree afterwards. So if a run has halted without
listening, every run at any other clock is on until it has halted in the same way, and that it does on every
schedule. -/
theorem timers_and_keys_do_not_interfere (m n : Machine) (agree : m.Agrees n) :
    (∀ h g, Hidden h → Hidden g → h.countP Action.isCycle = g.countP Action.isCycle →
      (∀ f ∈ m.trace h, (Instruction.decode f.word).listens = false) →
      n.trace g = m.trace h ∧ (m.through h).Agrees (n.through g)) ∧
    (∀ clock now log moves, Run.KeysOnly moves →
      let r := (Run.start m clock now log).after moves
      r.phase = .ended .halted →
      (∀ f ∈ m.trace ((Run.start m clock now log).history moves), (Instruction.decode f.word).listens = false) →
      ∀ otherClock otherNow otherLog otherMoves,
        let s := Run.start n otherClock otherNow otherLog
        (Run.KeysOnly otherMoves →
          r.HaltedLike (s.after otherMoves) ∨ ∀ how, (s.after otherMoves).phase ≠ .ended how) ∧
        (∀ unending, Run.Schedule unending → ∃ k, ∀ j, k ≤ j → r.HaltedLike (s.after (Run.first unending j)))) := by
  have same : m.hushed = n.hushed := (agrees_iff m n).mp agree
  refine ⟨?_, ?_⟩
  · intro h g hidden hiddenToo equal deaf
    obtain ⟨alike, left⟩ := trace_eq_of_hushed same hidden hiddenToo equal deaf
    exact ⟨alike.symm, (agrees_iff _ _).mpr left⟩
  · intro clock now log moves keys r halted deaf otherClock otherNow otherLog otherMoves s
    have run : r.HaltsDeaf m ((Run.start m clock now log).history moves) :=
      ⟨(Run.account_spaced m (cyclePeriod clock) now log).after moves, Run.hidden_history keys, deaf, halted⟩
    have unasked : n.stopping = false := agree.stopping ▸ Run.unasked_of_halted halted
    have begins : s.Unasked n [] :=
      ⟨Run.account_spaced n (cyclePeriod otherClock) otherNow otherLog, (fun a member => nomatch member), unasked,
        (fun stopped => nomatch stopped)⟩
    have alike {moves : List Move} (keys : Run.KeysOnly moves) (far : r.cycles ≤ (s.after moves).cycles) :
        r.HaltedLike (s.after moves) := by
      obtain ⟨halts, cycles, left⟩ := run.alike same (begins.after keys) far
      exact ⟨halts, cycles, (agrees_iff _ _).mpr left⟩
    refine ⟨?_, ?_⟩
    · intro keys
      by_cases far : r.cycles ≤ (s.after otherMoves).cycles
      · exact .inl (alike keys far)
      · exact .inr (run.behind same (begins.after keys) (by omega)).on
    · intro unending schedule
      obtain ⟨k, far⟩ := run.catches_up same schedule begins
      refine ⟨k, fun j later => alike (schedule.keysOnly j) ?_⟩
      have there := begins.after (schedule.keysOnly k)
      have place : k + (j - k) = j := by omega
      rw [← place, Run.first_add, Run.after_append]
      exact Nat.le_trans far (there.account.cycles_le _)

/-- A machine with a program that sets the delay timer and then comes to empty memory. -/
def countdown : Machine := (fresh .default []).load [0x6A, 0x2B, 0xFA, 0x15]

def rounds (apart : Nat) (j : Nat) : Move := .step (apart * (j / 3 + 1))

theorem countdown_at_two_clocks :
    let quick := (Run.start countdown 500 0 #[]).after (Run.first (rounds 2000000) 21)
    let slow := (Run.start (countdown.touch (.press 3)) 60 0 #[]).after
      (.touch (.toggle 5) :: Run.first (rounds 20000000) 21)
    countdown.Agrees (countdown.touch (.press 3)) ∧ quick.phase = .ended .halted ∧ quick.cycles = 7 ∧
      quick.HaltedLike slow ∧ quick.machine.delay ≠ slow.machine.delay := by
  intro quick slow
  have agree : countdown.Agrees (countdown.touch (.press 3)) := ⟨rfl, rfl, rfl, rfl, rfl, rfl, rfl, rfl, rfl⟩
  have keys (apart : Nat) : Run.KeysOnly (Run.first (rounds apart) 21) := by
    intro t member
    obtain ⟨i, is⟩ := Run.mem_first member
    cases is
  have keysToo : Run.KeysOnly (.touch (.toggle 5) :: Run.first (rounds 20000000) 21) := by
    intro t member
    rcases List.mem_cons.mp member with is | later
    · cases is
      rfl
    · exact keys _ t later
  have deaf : ∀ f ∈ countdown.trace ((Run.start countdown 500 0 #[]).history (Run.first (rounds 2000000) 21)),
      (Instruction.decode f.word).listens = false := by decide +kernel
  have seen : quick.phase = .ended .halted ∧ quick.cycles = 7 ∧ slow.phase = .ended .halted ∧
      quick.machine.delay ≠ slow.machine.delay := by decide +kernel
  obtain ⟨halted, seven, past, apart⟩ := seen
  have either := ((timers_and_keys_do_not_interfere countdown (countdown.touch (.press 3)) agree).2 500 0 #[]
    (Run.first (rounds 2000000) 21) (keys _) halted deaf 60 0 #[]
    (.touch (.toggle 5) :: Run.first (rounds 20000000) 21)).1 keysToo
  refine ⟨agree, halted, seven, ?_, apart⟩
  rcases either with alike | on
  · exact alike
  · exact absurd past (on .halted)

end Machine
end Chip8
