import Chip8.Proofs.RunHistory
import Mathlib.Data.List.Chain

/-!
# The cadence of a run

What happens whenever a period has gone by happens at certain readings of a clock (`Clock.due`): a period apart, and
not much later than that if the clock is read often. The ticks of a run fall on the readings at which they are due,
and so do its cycles (`Run.ticks_eq_due`, `Run.cycles_eq_due`). So the ticks do not depend on the program, nor on
how often it cycles (`Run.ticks_keep_cadence`).
-/

namespace Chip8

/-! ## Due readings -/

namespace Clock

/-- The readings at which a period has gone by since the last of them, or since a time before all. -/
def due (period last : Nat) : List Nat → List Nat
  | [] => []
  | t :: rest => if last + period ≤ t then t :: due period t rest else due period last rest

variable {period last now : Nat} {readings : List Nat}

theorem isChain_due (period last : Nat) (readings : List Nat) :
    (last :: due period last readings).IsChain (fun s t => s + period ≤ t) := by
  induction readings generalizing last with
  | nil => exact List.isChain_singleton last
  | cons t rest ih =>
    rw [due]
    split
    case isTrue ripe => exact List.isChain_cons_cons.mpr ⟨ripe, ih t⟩
    case isFalse => exact ih last

/-- Behind each due reading a period has gone by. -/
theorem add_length_due_le (behind : last ≤ now) (ordered : (now :: readings).IsChain (· ≤ ·)) :
    last + (due period last readings).length * period ≤ readings.getLastD now := by
  induction readings generalizing last now with
  | nil => simpa [due] using behind
  | cons t rest ih =>
    obtain ⟨later, orderedThen⟩ := List.isChain_cons_cons.mp ordered
    rw [due, List.getLastD_cons]
    split
    case isTrue ripe =>
      have := ih (Nat.le_refl t) orderedThen
      rw [List.length_cons, Nat.succ_mul]
      omega
    case isFalse => exact ih (Nat.le_trans behind later) orderedThen

/-- With readings that are never far apart, not much more than a period goes by until the next due one. -/
theorem getLastD_lt_due {gap : Nat} (positive : 0 < period) (near : now < last + period)
    (dense : (now :: readings).IsChain (fun s t => t ≤ s + gap)) :
    readings.getLastD now < last + (due period last readings).length * (period + gap) + period := by
  induction readings generalizing last now with
  | nil => simpa [due] using near
  | cons t rest ih =>
    obtain ⟨close, denseThen⟩ := List.isChain_cons_cons.mp dense
    rw [due, List.getLastD_cons]
    split
    case isTrue ripe =>
      have := ih (Nat.lt_add_of_pos_right positive) denseThen
      rw [List.length_cons, Nat.succ_mul]
      omega
    case isFalse early => exact ih (Nat.lt_of_not_le early) denseThen

end Clock

namespace Run

/-! ## Readings and times -/

/-- What the clock shows if a move reads it. -/
def reads (r : Run) : Move → List Nat
  | .step now => if r.phase = .polling ∧ r.machine.stopping = false then [now] else []
  | .touch _ => []

/-- What the clock shows to a run, one reading for each round. -/
def readings (r : Run) : List Move → List Nat
  | [] => []
  | a :: rest => r.reads a ++ (r.move a).readings rest

/-- The reading of the round in which a run does something of a kind, each time that it does. -/
def times (r : Run) (kind : Action → Bool) : List Move → List Nat
  | [] => []
  | a :: rest => ((r.does a).filter kind).map (fun _ => r.reading) ++ (r.move a).times kind rest

theorem length_times (r : Run) (kind : Action → Bool) (moves : List Move) :
    (r.times kind moves).length = (r.history moves).countP kind := by
  induction moves generalizing r with
  | nil => rfl
  | cons a rest ih =>
    rw [times, history, List.length_append, List.length_map, ih, List.countP_append, ← List.countP_eq_length_filter]

/-- What a move does to the clock of a run. The run ends; or the move leaves the clock alone; or it reads it, and a
cycle may be due; or there is a cycle; or a tick, which closes the round; or the round is closed without one. -/
theorem clock_cases (r : Run) (a : Move) :
    ((∃ how, (r.move a).phase = .ended how) ∧ r.reads a = [] ∧ (r.move a).reading = r.reading) ∨
    (r.reads a = [] ∧ (∀ b ∈ r.does a, ∃ t, b = .touch t) ∧ ∃ m, r.move a = { r with machine := m }) ∨
    (r.phase = .polling ∧ ∃ now, r.reads a = [now] ∧ r.does a = [] ∧
      r.move a = { r with reading := now, phase := if r.cycleDue now then .cycling else .ticking }) ∨
    (r.phase = .cycling ∧ r.reads a = [] ∧ r.does a = [.cycle] ∧ ∃ m events, r.move a = r.cycled m events .ticking) ∨
    (r.phase = .ticking ∧ r.tickDue = true ∧ r.reads a = [] ∧ r.does a = [.tick] ∧
      r.move a = { r with machine := r.machine.tick, lastTick := r.reading, phase := .polling }) ∨
    (r.phase = .ticking ∧ r.tickDue = false ∧ r.reads a = [] ∧ r.does a = [] ∧
      r.move a = { r with phase := .polling }) := by
  cases a with
  | touch t => exact .inr (.inl ⟨rfl, fun b member => ⟨t, List.mem_singleton.mp member⟩, _, rfl⟩)
  | step now =>
    have unread (other : r.phase ≠ .polling) : r.reads (.step now) = [] := by simp [reads, other]
    rw [move]
    cases phase : r.phase with
    | polling =>
      obtain ⟨none, eq⟩ := step_polling phase now
      rw [none, eq, poll]
      cases asked : r.machine.stopping with
      | true => exact .inl ⟨⟨.stopped, rfl⟩, by simp [reads, asked], rfl⟩
      | false => exact .inr (.inr (.inl ⟨rfl, now, by simp [reads, phase, asked], rfl, rfl⟩))
    | cycling =>
      have unread := unread (by simp [phase])
      rcases step_cycling phase now with ⟨-, none, eq⟩ | ⟨one, -, -, out⟩
      · rw [none, eq, ← phase]
        exact .inr (.inl ⟨unread, fun b member => (nomatch member), r.machine, rfl⟩)
      · rcases out with ⟨done, -⟩ | ⟨halted, ended⟩ | ⟨broke, ended⟩
        · have eq : r.step now = r.cycled r.machine.cycle.machine r.machine.cycle.note.toList .ticking := by
            simp [step, phase, cycle, done]
          exact .inr (.inr (.inr (.inl ⟨rfl, unread, one, _, _, eq⟩)))
        · exact .inl ⟨⟨_, ended⟩, unread, by simp [step, phase, cycle, halted, cycled]⟩
        · exact .inl ⟨⟨_, ended⟩, unread, by simp [step, phase, cycle, broke, cycled]⟩
    | ticking =>
      have unread := unread (by simp [phase])
      obtain ⟨does, eq⟩ := step_ticking phase now
      rw [does, eq, tick]
      cases due : r.tickDue with
      | true => exact .inr (.inr (.inr (.inr (.inl ⟨rfl, rfl, unread, rfl, rfl⟩))))
      | false => exact .inr (.inr (.inr (.inr (.inr ⟨rfl, rfl, unread, rfl, rfl⟩))))
    | ended how =>
      rw [(step_ended phase now).2]
      exact .inl ⟨⟨how, phase⟩, unread (by simp [phase]), rfl⟩

theorem ended_after {r : Run} {how : Ending} (ended : r.phase = .ended how) (moves : List Move) :
    (r.after moves).phase = .ended how := by
  refine after_induction (P := fun r => r.phase = .ended how) ?_ ended moves
  intro r a ended
  cases a with
  | touch t => exact ended
  | step now =>
    rw [move, (step_ended ended now).2]
    exact ended

theorem filter_touches {does : List Action} (kind : Action → Bool) (touches : ∀ b ∈ does, ∃ t, b = .touch t)
    (other : ∀ t, kind (.touch t) = false) : does.filter kind = [] := by
  refine List.filter_eq_nil_iff.mpr fun b member => ?_
  obtain ⟨t, rfl⟩ := touches b member
  simp [other]

/-! ## Rounds that are over -/

theorem tickDue_iff (r : Run) : r.tickDue = true ↔ r.lastTick + tickPeriod ≤ r.reading := by
  have positive : 0 < tickPeriod := by decide
  rw [tickDue, decide_eq_true_eq]
  generalize tickPeriod = period at positive ⊢
  omega

/-- The reading of a round in which a tick may still come. -/
def tickOpen (r : Run) : List Nat :=
  match r.phase with
  | .cycling | .ticking => [r.reading]
  | _ => []

/-- A run that has closed its last round has ticked at the due readings. -/
theorem ticks_eq_due {r : Run} {moves : List Move} (whole : (r.after moves).phase = .polling) :
    r.times Action.isTick moves = Clock.due tickPeriod r.lastTick (r.tickOpen ++ r.readings moves) := by
  -- the period is a large number that nothing should compute with
  obtain ⟨period, is, ripeIff⟩ : ∃ p, p = tickPeriod ∧ ∀ r : Run, r.tickDue = true ↔ r.lastTick + p ≤ r.reading :=
    ⟨tickPeriod, rfl, tickDue_iff⟩
  rw [← is]
  induction moves generalizing r with
  | nil =>
    have polling : r.phase = .polling := whole
    simp [times, readings, tickOpen, polling, Clock.due]
  | cons a rest ih =>
    rw [times, readings, ih whole]
    rcases r.clock_cases a with ⟨⟨how, ended⟩, -⟩ | ⟨unread, touches, m, eq⟩ | ⟨polling, now, reads, none, eq⟩ |
      ⟨cycling, unread, one, m, events, eq⟩ | ⟨ticking, due, unread, one, eq⟩ | ⟨ticking, due, unread, none, eq⟩
    · rw [after, ended_after ended] at whole
      cases whole
    · have quiet := filter_touches Action.isTick touches fun _ => rfl
      simp [unread, quiet, eq, tickOpen]
    · rw [reads, none, eq]
      cases due : r.cycleDue now <;> simp [tickOpen, polling]
    · simp [unread, one, eq, tickOpen, cycling, cycled, Action.isTick]
    · have ripe := (ripeIff r).mp due
      simp [unread, one, eq, tickOpen, ticking, Clock.due, ripe, List.filter_cons, Action.isTick]
    · have early : ¬ r.lastTick + period ≤ r.reading := by simp [← ripeIff, due]
      simp [unread, none, eq, tickOpen, ticking, Clock.due, early]

/-- A run whose last cycle lies behind it, and so does the time at which one that is still to come was due. -/
structure Timely (r : Run) : Prop where
  behind : r.lastCycle ≤ r.reading
  ripe : r.phase = .cycling → r.lastCycle + r.period ≤ r.reading

theorem Timely.cycleDue_iff {r : Run} (timely : r.Timely) {now : Nat} (forward : r.reading ≤ now) :
    r.cycleDue now = true ↔ r.lastCycle + r.period ≤ now := by
  have behind := timely.behind
  rw [cycleDue, decide_eq_true_eq]
  omega

theorem Timely.move {r : Run} (timely : r.Timely) {a : Move} (forward : ∀ now ∈ r.reads a, r.reading ≤ now) :
    (∃ how, (r.move a).phase = .ended how) ∨ (r.move a).Timely := by
  rcases r.clock_cases a with ⟨ended, -⟩ | ⟨-, -, m, eq⟩ | ⟨-, now, reads, -, eq⟩ | ⟨-, -, -, m, events, eq⟩ |
    ⟨-, -, -, -, eq⟩ | ⟨-, -, -, -, eq⟩
  · exact .inl ended
  · rw [eq]
    exact .inr ⟨timely.behind, timely.ripe⟩
  · have forward := forward now (by simp [reads])
    rw [eq]
    refine .inr ⟨Nat.le_trans timely.behind forward, ?_⟩
    cases due : r.cycleDue now with
    | true => exact fun _ => (timely.cycleDue_iff forward).mp due
    | false => exact fun cycling => nomatch cycling
  · rw [eq]
    exact .inr ⟨Nat.le_refl _, fun cycling => nomatch cycling⟩
  · rw [eq]
    exact .inr ⟨timely.behind, fun cycling => nomatch cycling⟩
  · rw [eq]
    exact .inr ⟨timely.behind, fun cycling => nomatch cycling⟩

/-- A clock that does not go back shows no less at a move than before. -/
theorem ordered_move {r : Run} {a : Move} {more : List Nat}
    (ordered : (r.reading :: (r.reads a ++ more)).IsChain (· ≤ ·)) :
    (∀ now ∈ r.reads a, r.reading ≤ now) ∧ ((r.move a).reading :: more).IsChain (· ≤ ·) := by
  have idle (unread : r.reads a = []) (same : (r.move a).reading = r.reading) :
      (∀ now ∈ r.reads a, r.reading ≤ now) ∧ ((r.move a).reading :: more).IsChain (· ≤ ·) := by
    rw [unread] at ordered ⊢
    exact ⟨fun now member => (nomatch member), same ▸ ordered⟩
  rcases r.clock_cases a with ⟨-, unread, same⟩ | ⟨unread, -, m, eq⟩ | ⟨-, now, reads, -, eq⟩ |
    ⟨-, unread, -, m, events, eq⟩ | ⟨-, -, unread, -, eq⟩ | ⟨-, -, unread, -, eq⟩
  · exact idle unread same
  · exact idle unread (by rw [eq])
  · rw [reads] at ordered ⊢
    obtain ⟨forward, orderedThen⟩ := List.isChain_cons_cons.mp ordered
    exact ⟨fun t member => List.mem_singleton.mp member ▸ forward, by rw [eq]; exact orderedThen⟩
  · exact idle unread (by rw [eq]; rfl)
  · exact idle unread (by rw [eq])
  · exact idle unread (by rw [eq])

/-- The reading of a round in which a cycle is still to come. -/
def cycleOpen (r : Run) : List Nat :=
  match r.phase with
  | .cycling => [r.reading]
  | _ => []

/-- A run that has closed its last round has cycled at the due readings, if the clock did not go back. -/
theorem cycles_eq_due {r : Run} (timely : r.Timely) {moves : List Move}
    (ordered : (r.reading :: r.readings moves).IsChain (· ≤ ·)) (whole : (r.after moves).phase = .polling) :
    r.times Action.isCycle moves = Clock.due r.period r.lastCycle (r.cycleOpen ++ r.readings moves) := by
  induction moves generalizing r with
  | nil =>
    have polling : r.phase = .polling := whole
    simp [times, readings, cycleOpen, polling, Clock.due]
  | cons a rest ih =>
    obtain ⟨forward, orderedThen⟩ := ordered_move ordered
    rw [after] at whole
    rcases timely.move forward with ⟨how, ended⟩ | timelyThen
    · rw [ended_after ended] at whole
      cases whole
    · rw [times, readings, ih timelyThen orderedThen whole]
      rcases r.clock_cases a with ⟨⟨how, ended⟩, -⟩ | ⟨unread, touches, m, eq⟩ | ⟨polling, now, reads, none, eq⟩ |
        ⟨cycling, unread, one, m, events, eq⟩ | ⟨ticking, -, unread, one, eq⟩ | ⟨ticking, -, unread, none, eq⟩
      · rw [ended_after ended] at whole
        cases whole
      · have quiet := filter_touches Action.isCycle touches fun _ => rfl
        simp [unread, quiet, eq, cycleOpen]
      · have dueIff := timely.cycleDue_iff (forward now (by simp [reads]))
        cases due : r.cycleDue now with
        | true => simp [reads, none, eq, due, cycleOpen, polling]
        | false =>
          have early : ¬ r.lastCycle + r.period ≤ now := by simp [← dueIff, due]
          simp [reads, none, eq, due, cycleOpen, polling, Clock.due, early]
      · have ripe := timely.ripe cycling
        simp [unread, one, eq, cycleOpen, cycling, cycled, Clock.due, ripe, List.filter_cons, Action.isCycle]
      · simp [unread, one, eq, cycleOpen, ticking, Action.isCycle]
      · simp [unread, none, eq, cycleOpen, ticking]

/-! ## The cadence -/

/-- The cadence of a run that has closed its last round, by a clock that does not go back. Its ticks, one at each of
their times, take no more time than has passed; each comes a period of the timers behind the one before, and behind
the start; and where the clock is never read more than a gap apart, none of them comes more than a period and that
gap later. They depend on the readings of the clock alone, whatever the machine, the time between two cycles, and
what other threads do. The cycles, too, take no more time than has passed. -/
theorem ticks_keep_cadence (m : Machine) (period start : Nat) (log : Array Event) (moves : List Move)
    (ordered : (start :: (spaced m period start log).readings moves).IsChain (· ≤ ·))
    (whole : ((spaced m period start log).after moves).phase = .polling) :
    let r := spaced m period start log
    let last := (r.readings moves).getLastD start
    let ticks := (r.history moves).countP Action.isTick
    let cycles := (r.history moves).countP Action.isCycle
    ticks * tickPeriod ≤ last - start ∧
    ((r.times Action.isTick moves).length = ticks ∧
      (start :: r.times Action.isTick moves).IsChain fun s t => s + tickPeriod ≤ t) ∧
    (∀ gap, (start :: r.readings moves).IsChain (fun s t => t ≤ s + gap) →
      last - start < ticks * (tickPeriod + gap) + tickPeriod) ∧
    (∀ n otherPeriod otherLog otherMoves, let other := spaced n otherPeriod start otherLog
      (other.after otherMoves).phase = .polling → other.readings otherMoves = r.readings moves →
        (other.history otherMoves).countP Action.isTick = ticks) ∧
    cycles * period ≤ last - start := by
  intro r last ticks cycles
  have tickTimes : r.times Action.isTick moves = Clock.due tickPeriod start (r.readings moves) := ticks_eq_due whole
  have timely : r.Timely := ⟨Nat.le_refl _, fun cycling => nomatch cycling⟩
  have cycleTimes : r.times Action.isCycle moves = Clock.due period start (r.readings moves) :=
    cycles_eq_due timely ordered whole
  have ticksEq : ticks = (Clock.due tickPeriod start (r.readings moves)).length := by
    rw [← tickTimes, length_times]
  have cyclesEq : cycles = (Clock.due period start (r.readings moves)).length := by
    rw [← cycleTimes, length_times]
  have behind (period : Nat) : (Clock.due period start (r.readings moves)).length * period ≤ last - start :=
    Nat.le_sub_of_add_le' (Clock.add_length_due_le (Nat.le_refl start) ordered)
  refine ⟨ticksEq ▸ behind tickPeriod, ⟨r.length_times _ moves, ?_⟩, ?_, ?_, cyclesEq ▸ behind period⟩
  · rw [tickTimes]
    exact Clock.isChain_due tickPeriod start _
  · intro gap dense
    have positive : 0 < tickPeriod := by decide
    have near := Clock.getLastD_lt_due positive (Nat.lt_add_of_pos_right positive) dense
    rw [← ticksEq] at near
    generalize tickPeriod = tickPeriod at positive near ⊢
    omega
  · intro n otherPeriod otherLog otherMoves other wholeToo same
    have otherTimes : other.times Action.isTick otherMoves = Clock.due tickPeriod start (other.readings otherMoves) :=
      ticks_eq_due wholeToo
    rw [← length_times, otherTimes, same, ticksEq]

/-- The first instruction waits for a key while the clock goes on, and the key comes late. -/
def heldUp : List Move :=
  [.step 2000000, .step 2000000, .touch (.press 3), .step 90000000, .step 90000000, .step 90000000, .step 90000001,
    .step 90000001]

theorem cadence_of_heldUp :
    let r := spaced ((Machine.fresh .default []).load [0xF1, 0x0A, 0x12, 0x02]) 2000000 0 #[]
    (r.readings heldUp = [2000000, 90000000] ∧ (r.after heldUp).phase = .polling) ∧
      (r.history heldUp).countP Action.isTick = 1 ∧ (r.history heldUp).countP Action.isCycle = 2 ∧
      1 * tickPeriod ≤ 90000000 ∧ 90000000 < 1 * (tickPeriod + 88000000) + tickPeriod ∧ 2 * 2000000 ≤ 90000000 := by
  intro r
  have seen : r.readings heldUp = [2000000, 90000000] ∧ (r.after heldUp).phase = .polling ∧
      (r.history heldUp).countP Action.isTick = 1 ∧ (r.history heldUp).countP Action.isCycle = 2 := by
    decide +kernel
  obtain ⟨readings, whole, ticks, cycles⟩ := seen
  have ordered : (0 :: r.readings heldUp).IsChain (· ≤ ·) := by simp [readings]
  have dense : (0 :: r.readings heldUp).IsChain fun s t => t ≤ s + 88000000 := by simp [readings]
  obtain ⟨enough, -, near, -, cyclesFit⟩ := ticks_keep_cadence _ _ _ _ heldUp ordered whole
  have near := near 88000000 dense
  rw [ticks, readings] at enough near
  rw [cycles, readings] at cyclesFit
  exact ⟨⟨readings, whole⟩, ticks, cycles, enough, near, cyclesFit⟩

end Run
end Chip8
