import Chip8.Proofs.EmptyRows

/-!
# The wait for a key

An instruction that awaits a key looks again and again: for a held key, then for a wish to stop. Between any two looks
other threads may change whatever they share with the machine. So a wait is a run over what its looks find
(`KeyWait.look`, `KeyWait.after`), and a cycle that does not wait is the round that ends it (`KeyWait.cycle_of_ends`).
The wait ends in the first round that finds something and changes one register at most
(`KeyWait.ends_at_first_sight`).
-/

namespace Chip8

/-- What other threads can change of a machine. -/
structure Commons where
  display : Bitmap
  keypad : Keypad
  stopping : Bool

namespace Machine

/-- What a machine shares with other threads. -/
def commons (m : Machine) : Commons := ⟨m.display, m.keypad, m.stopping⟩

/-- A machine whose shared parts others have changed. -/
def sharing (m : Machine) (s : Commons) : Machine :=
  { m with display := s.display, keypad := s.keypad, stopping := s.stopping }

@[simp] theorem keypad_sharing (m : Machine) (s : Commons) : (m.sharing s).keypad = s.keypad := rfl

/-- Other threads change nothing but what they share. -/
theorem touch_eq_sharing (m : Machine) (t : Touch) : m.touch t = m.sharing (m.touch t).commons := by
  cases t <;> rfl

end Machine

/-! ## A wait as a run -/

namespace KeyWait

/-- How far a wait is. -/
inductive Stage
  /-- The next look is for a held key. -/
  | keys
  /-- No key was found, and the next look is for a wish to stop. -/
  | wish
  /-- There are no further looks. -/
  | finished
deriving DecidableEq

end KeyWait

/-- A machine that awaits a key for a register. -/
structure KeyWait where
  machine : Machine
  register : Digit
  stage : KeyWait.Stage

namespace KeyWait

/-- A wait begins past its instruction. -/
def start (m : Machine) (x : Digit) : KeyWait := ⟨{ m.advance with emptyRow := 0 }, x, .keys⟩

/-- Others leave the shared parts in some state, and then the wait has a look. -/
def look (w : KeyWait) (s : Commons) : KeyWait :=
  let m := w.machine.sharing s
  match w.stage with
  | .keys =>
    let stage := if m.keypad.lowest?.isSome then .finished else .wish
    { w with machine := m.perform (.awaitKey w.register), stage }
  | .wish => { w with machine := m, stage := if m.stopping then .finished else .keys }
  | .finished => { w with machine := m }

/-- The wait after what its looks have found. -/
def after (w : KeyWait) (found : List Commons) : KeyWait := found.foldl look w

/-- What is found in so many rounds of two looks each. -/
def rounds (first second : Nat → Commons) : Nat → List Commons
  | 0 => []
  | n + 1 => rounds first second n ++ [first n, second n]

/-- Whether a round ends a wait: its first look finds a held key, or its second one a wish to stop. -/
def ends (a b : Commons) : Bool := a.keypad.lowest?.isSome || b.stopping

theorem ends_iff (a b : Commons) : ends a b = true ↔ (∃ k, a.keypad.holds k = true) ∨ b.stopping = true := by
  rw [ends, Bool.or_eq_true, Keypad.isSome_lowest?_iff]

theorem after_append (w : KeyWait) (found more : List Commons) :
    w.after (found ++ more) = (w.after found).after more :=
  List.foldl_append

theorem after_pair (w : KeyWait) (a b : Commons) : w.after [a, b] = (w.look a).look b := rfl

/-! ## One round -/

section
variable {w : KeyWait}

theorem look_of_finished (finished : w.stage = .finished) (s : Commons) :
    w.look s = { w with machine := w.machine.sharing s } := by
  rw [look, finished]

theorem look_of_keys (keys : w.stage = .keys) (s : Commons) :
    w.look s = { w with
      machine := (w.machine.sharing s).perform (.awaitKey w.register),
      stage := if s.keypad.lowest?.isSome then .finished else .wish } := by
  rw [look, keys]
  rfl

theorem look_of_wish (wish : w.stage = .wish) (s : Commons) :
    w.look s = { w with machine := w.machine.sharing s, stage := if s.stopping then .finished else .keys } := by
  rw [look, wish]
  rfl

/-- A round looks at the keys once and leaves behind what others have made of the shared parts since. -/
theorem look_twice (keys : w.stage = .keys) (a b : Commons) :
    (w.look a).look b = { w with
      machine := ((w.machine.sharing a).perform (.awaitKey w.register)).sharing b,
      stage := if ends a b then .finished else .keys } := by
  rw [look_of_keys keys]
  cases found : a.keypad.lowest? with
  | none => rw [look_of_wish rfl]; simp [ends, found]
  | some k => rw [look_of_finished rfl]; simp [ends, found]

end

/-- Without a key, an instruction that awaits one does nothing. -/
theorem perform_of_none {m : Machine} (none : m.keypad.lowest? = none) (x : Digit) : m.perform (.awaitKey x) = m := by
  rw [Machine.awaitKey_eq, none]
  rfl

/-- A round that finds nothing changes nothing. -/
theorem look_twice_of_not_ends {w : KeyWait} (keys : w.stage = .keys) {a b : Commons} (nothing : ends a b = false) :
    (w.look a).look b = { w with machine := w.machine.sharing b } := by
  have none : a.keypad.lowest? = none := by
    simp only [ends, Bool.or_eq_false_iff] at nothing
    simpa using nothing.1
  rw [look_twice keys, nothing, perform_of_none (by exact none), ← keys]
  rfl

/-! ## All rounds -/

section
variable (m : Machine) (x : Digit) (first second : Nat → Commons)

theorem after_rounds_succ (w : KeyWait) (n : Nat) :
    w.after (rounds first second (n + 1)) = ((w.after (rounds first second n)).look (first n)).look (second n) := by
  rw [rounds, after_append, after_pair]

/-- Before its end a wait has changed nothing. -/
theorem after_rounds_of_quiet {n : Nat} (quiet : ∀ i < n, ends (first i) (second i) = false) :
    ∃ s, (start m x).after (rounds first second n) = { start m x with machine := (start m x).machine.sharing s } := by
  induction n with
  | zero => exact ⟨m.commons, rfl⟩
  | succ n ih =>
    obtain ⟨s, eq⟩ := ih fun i before => quiet i (by omega)
    refine ⟨second n, ?_⟩
    rw [after_rounds_succ, eq, look_twice_of_not_ends rfl (quiet n (by omega))]
    rfl

/-- The first look of a round that no earlier one has ended the wait before. -/
theorem look_first_of_quiet {n : Nat} (quiet : ∀ i < n, ends (first i) (second i) = false) :
    ((start m x).after (rounds first second n)).look (first n) =
      ⟨((start m x).machine.sharing (first n)).perform (.awaitKey x), x,
        if (first n).keypad.lowest?.isSome then .finished else .wish⟩ := by
  obtain ⟨s, eq⟩ := after_rounds_of_quiet m x first second quiet
  rw [eq, look_of_keys rfl]
  rfl

theorem after_rounds_succ_of_quiet {n : Nat} (quiet : ∀ i < n, ends (first i) (second i) = false) :
    (start m x).after (rounds first second (n + 1)) =
      ⟨(((start m x).machine.sharing (first n)).perform (.awaitKey x)).sharing (second n), x,
        if ends (first n) (second n) then .finished else .keys⟩ := by
  obtain ⟨s, eq⟩ := after_rounds_of_quiet m x first second quiet
  rw [after_rounds_succ, eq, look_twice rfl]
  rfl

/-- Looks behind the end of a wait find nothing to do. -/
theorem stage_after_of_finished {w : KeyWait} (finished : w.stage = .finished) (found : List Commons) :
    (w.after found).stage = .finished := by
  induction found generalizing w with
  | nil => exact finished
  | cons s rest ih => exact ih (by rw [look_of_finished finished]; exact finished)

/-- A wait is over once a round has ended it. -/
theorem finished_after_rounds_iff (n : Nat) :
    ((start m x).after (rounds first second n)).stage = .finished ↔ ∃ i < n, ends (first i) (second i) = true := by
  induction n with
  | zero => simp [rounds, after, start]
  | succ n ih =>
    rw [Nat.exists_lt_succ_right]
    -- a wait that is over stays so; one that is not stands at the beginning of a round
    by_cases before : ∃ i < n, ends (first i) (second i) = true
    · rw [rounds, after_append]
      exact iff_of_true (stage_after_of_finished (ih.mpr before) _) (.inl before)
    · have quiet : ∀ i < n, ends (first i) (second i) = false := by simpa using before
      rw [after_rounds_succ_of_quiet m x first second quiet]
      cases ended : ends (first n) (second n) <;> simp [before]

theorem finished_look_first_iff (n : Nat) :
    (((start m x).after (rounds first second n)).look (first n)).stage = .finished ↔
      (∃ i < n, ends (first i) (second i) = true) ∨ ∃ k, (first n).keypad.holds k = true := by
  by_cases before : ∃ i < n, ends (first i) (second i) = true
  · have finished := (finished_after_rounds_iff m x first second n).mpr before
    exact iff_of_true (by rw [look_of_finished finished]; exact finished) (.inl before)
  · have quiet : ∀ i < n, ends (first i) (second i) = false := by simpa using before
    rw [look_first_of_quiet m x first second quiet, ← Keypad.isSome_lowest?_iff]
    cases found : (first n).keypad.lowest?.isSome <;> simp [before]

end

/-! ## What a wait leaves behind -/

section
variable {m : Machine} {x : Digit}

theorem machine_start (m : Machine) (x : Digit) :
    (start m x).machine = { m with pc := (m.pc + 2) % 4096, emptyRow := 0 } := by
  rw [← Machine.after_after]
  rfl

/-- The lowest key that is held goes to the register. -/
theorem perform_of_lowest {s : Commons} {k : Digit} (lowest : s.keypad.lowest? = some k) (m : Machine) (x : Digit) :
    (m.sharing s).perform (.awaitKey x) = { m with v := m.v.set x.val k.toByte x.inside }.sharing s := by
  rw [Machine.awaitKey_eq, Machine.keypad_sharing, lowest]
  rfl

theorem get_perform_of_lowest {k : Digit} (lowest : m.keypad.lowest? = some k) (x : Digit) :
    (m.perform (.awaitKey x)).v.get x = k.toByte := by
  rw [Machine.awaitKey_eq, lowest]
  simp

theorem look_start_of_lowest {s : Commons} {k : Digit} (lowest : s.keypad.lowest? = some k) (m : Machine) (x : Digit) :
    ((start m x).look s).stage = .finished ∧ ((start m x).look s).machine.v.get x = k.toByte := by
  rw [look_of_keys rfl, lowest]
  exact ⟨rfl, get_perform_of_lowest (by exact lowest) x⟩

/-- A cycle that awaits a key waits in a round that would not end a wait. -/
theorem wouldWait_eq (awaits : m.next = .awaitKey x) : m.wouldWait = !ends m.commons m.commons := by
  rw [Machine.wouldWait, awaits]
  cases found : m.keypad.lowest? <;> simp [ends, Machine.commons, found]

/-- A cycle that awaits a key and need not wait is the round that ends a wait. -/
theorem cycle_of_ends (awaits : m.next = .awaitKey x) (ended : ends m.commons m.commons = true) :
    m.cycle = ⟨(start m x).machine.perform (.awaitKey x), .done, none⟩ := by
  have goes : m.wouldWait = false := by rw [wouldWait_eq awaits, ended]; rfl
  rw [Machine.cycle_of_goes (by simp [awaits]) goes, awaits]
  rfl

theorem cycle_of_not_ends (awaits : m.next = .awaitKey x) (nothing : ends m.commons m.commons = false) :
    m.cycle = ⟨m, .waiting, none⟩ :=
  Machine.cycle_of_waits (by rw [wouldWait_eq awaits, nothing]; rfl)

theorem cycle_of_lowest (awaits : m.next = .awaitKey x) {k : Digit} (lowest : m.keypad.lowest? = some k) :
    m.cycle.outcome = .done ∧ m.cycle.machine.v.get x = k.toByte := by
  have ended : ends m.commons m.commons = true := by simp [ends, Machine.commons, lowest]
  rw [cycle_of_ends awaits ended]
  exact ⟨rfl, get_perform_of_lowest (by exact lowest) x⟩

/-- What a round finds is what a cycle finds that looks at the keys of its first look and at all else with its second
one. -/
theorem look_twice_eq_cycle (awaits : m.next = .awaitKey x) {a b : Commons} (ended : ends a b = true) :
    (((start m x).look a).look b).machine = (m.sharing { b with keypad := a.keypad }).cycle.machine.sharing b := by
  rw [look_twice rfl, cycle_of_ends (by exact awaits) (by exact ended), Machine.awaitKey_eq, Machine.awaitKey_eq]
  rfl

/-- A look that finds nothing only goes on to the next one. -/
theorem look_of_idle {w : KeyWait} (going : w.stage ≠ .finished) {s : Commons} (idle : ends s s = false) :
    ∃ stage, stage ≠ .finished ∧ w.look s = ⟨w.machine.sharing s, w.register, stage⟩ := by
  have nothing : s.keypad.lowest? = none ∧ s.stopping = false := by simpa [ends] using idle
  cases stage : w.stage with
  | keys =>
    refine ⟨.wish, by simp, ?_⟩
    rw [look_of_keys stage, perform_of_none (by exact nothing.1), nothing.1]
    rfl
  | wish => exact ⟨.keys, by simp, by rw [look_of_wish stage, nothing.2]; rfl⟩
  | finished => contradiction

theorem after_of_idle {w : KeyWait} (going : w.stage ≠ .finished) {found : List Commons}
    (idle : ∀ s ∈ found, ends s s = false) :
    ∃ s stage, stage ≠ .finished ∧ w.after found = ⟨w.machine.sharing s, w.register, stage⟩ := by
  induction found generalizing w with
  | nil => exact ⟨w.machine.commons, w.stage, going, rfl⟩
  | cons s rest ih =>
    obtain ⟨next, goingOn, looked⟩ := look_of_idle going (idle s List.mem_cons_self)
    obtain ⟨t, last, goes, eq⟩ := ih (w := ⟨w.machine.sharing s, w.register, next⟩) goingOn fun t member =>
      idle t (List.mem_cons_of_mem s member)
    refine ⟨t, last, goes, ?_⟩
    rw [after, List.foldl_cons, looked]
    exact eq

/-- A wait that finds a key after all is a cycle that finds it at once, whichever of the two looks comes first. -/
theorem after_idle_then_held (awaits : m.next = .awaitKey x) {found : List Commons}
    (idle : ∀ s ∈ found, ends s s = false) {s : Commons} (held : s.keypad.lowest?.isSome = true)
    (going : s.stopping = false) :
    (start m x).after (found ++ [s, s]) = ⟨(m.sharing s).cycle.machine, x, .finished⟩ := by
  have ended : ends s s = true := by simp [ends, held]
  rw [cycle_of_ends (by exact awaits) (by exact ended), after_append]
  obtain ⟨t, stage, goingOn, eq⟩ := after_of_idle (w := start m x) (by simp [start]) idle
  rw [eq]
  cases stage with
  | keys =>
    -- the first of the two looks finds the key
    rw [after_pair, look_twice rfl, if_pos ended, Machine.awaitKey_eq, Machine.awaitKey_eq]
    rfl
  | wish =>
    -- the first of the two looks is for a wish to stop, of which there is none
    rw [after_pair, look_of_wish (w := ⟨_, _, .wish⟩) rfl, going, look_of_keys rfl, if_pos held]
    rfl
  | finished => contradiction

/-- A machine that has to wait goes on, once a key is pressed, as if it had been held from the beginning. -/
theorem after_idle_then_pressed (awaits : m.next = .awaitKey x) (waits : m.cycle.outcome = .waiting)
    {found : List Commons} (idle : ∀ s ∈ found, ends s s = false) (key : UInt8) :
    let pressed := m.touch (.press key)
    pressed.cycle.outcome = .done ∧
      (start m x).after (found ++ [pressed.commons, pressed.commons]) = ⟨pressed.cycle.machine, x, .finished⟩ := by
  intro pressed
  have held : pressed.keypad.holds (Digit.low key) = true := by
    simp [pressed, Machine.touch, Machine.mapKeypad, Keypad.press, Keypad.holds_put]
  have going : m.stopping = false := by
    rw [Machine.outcome_eq_waiting_iff, wouldWait_eq awaits, Bool.not_eq_true'] at waits
    exact (Bool.or_eq_false_iff.mp waits).2
  have awaitsStill : pressed.next = .awaitKey x := awaits
  have eq : pressed = m.sharing pressed.commons := Machine.touch_eq_sharing m (.press key)
  refine ⟨?_, ?_⟩
  · rw [cycle_of_ends awaitsStill ((ends_iff pressed.commons pressed.commons).mpr (.inl ⟨_, held⟩))]
  · rw [after_idle_then_held awaits idle (Keypad.isSome_lowest?_iff.mpr ⟨_, held⟩) (by exact going), ← eq]

end

/-- A wait ends with the first round whose first look finds a held key or whose second look finds a wish to stop, and
with no earlier one; it is over as soon as that look is done. What it leaves behind is the machine past its
instruction with the lowest of the keys that the last first look found, or with no register changed where it found
none, and with the shared parts as others have left them. A cycle that finds in one go what a round finds comes out
alike. So the key is still there for the next instruction that awaits one, and a cycle that waits goes on, once a
key is pressed, as if it had been held from the beginning. -/
theorem ends_at_first_sight {m : Machine} {x : Digit} (awaits : m.next = .awaitKey x) (first second : Nat → Commons) :
    let w n := (start m x).after (rounds first second n)
    let lowest (s : Commons) (k : Digit) := s.keypad.holds k = true ∧ ∀ j < k, s.keypad.holds j = false
    let holding n := ∃ k, (first n).keypad.holds k = true
    let ended n := ∃ i < n, holding i ∨ (second i).stopping = true
    let past := { m with pc := (m.pc + 2) % 4096, emptyRow := 0 }
    let taken (k : Digit) := { past with v := m.v.set x.val k.toByte x.inside }
    let seen n := m.sharing { second n with keypad := (first n).keypad }
    (∀ n, (((w n).look (first n)).stage = .finished ↔ ended n ∨ holding n) ∧ ((w n).stage = .finished ↔ ended n)) ∧
    (∀ n, ¬ ended n →
      (∀ k, lowest (first n) k →
        ((w n).look (first n)).machine = (taken k).sharing (first n) ∧
        (w (n + 1)).machine = (taken k).sharing (second n)) ∧
      (¬ holding n →
        ((w n).look (first n)).machine = past.sharing (first n) ∧ (w (n + 1)).machine = past.sharing (second n)) ∧
      (¬ ended (n + 1) → (seen n).cycle = ⟨seen n, .waiting, none⟩) ∧
      (ended (n + 1) →
        (seen n).cycle.outcome = .done ∧ (w (n + 1)).machine = (seen n).cycle.machine.sharing (second n))) ∧
    (∀ n k, ¬ ended n → lowest (first n) k →
      let e := ((w n).look (first n)).machine
      ∀ y, e.next = .awaitKey y →
        (e.cycle.outcome = .done ∧ e.cycle.machine.v.get y = k.toByte) ∧
        ∀ s, lowest s k →
          ((start e y).look s).stage = .finished ∧ ((start e y).look s).machine.v.get y = k.toByte) ∧
    (m.cycle.outcome = .waiting → ∀ found key,
      (∀ s ∈ found, (∀ k, s.keypad.holds k = false) ∧ s.stopping = false) →
        let pressed := m.touch (.press key)
        pressed.cycle.outcome = .done ∧
        (start m x).after (found ++ [pressed.commons, pressed.commons]) = ⟨pressed.cycle.machine, x, .finished⟩) := by
  intro w lowest holding ended past taken seen
  have ended_iff n : ended n ↔ ∃ i < n, ends (first i) (second i) = true := by
    simp only [ended, holding, ends_iff]
  have quiet_of {n} (notYet : ¬ ended n) : ∀ i < n, ends (first i) (second i) = false := by
    simpa [ended_iff] using notYet
  have last_of {n} (notYet : ¬ ended n) : ended (n + 1) ↔ ends (first n) (second n) = true := by
    rw [ended_iff, Nat.exists_lt_succ_right, ← ended_iff]
    simp [notYet]
  have first_look {n} (notYet : ¬ ended n) := look_first_of_quiet m x first second (quiet_of notYet)
  have both_looks {n} (notYet : ¬ ended n) := after_rounds_succ_of_quiet m x first second (quiet_of notYet)
  refine ⟨fun n => ⟨?_, ?_⟩,
    fun n notYet => ⟨fun k low => ?_, fun noKey => ?_, fun nothing => ?_, fun found => ?_⟩, ?_,
    fun waits found key idle => ?_⟩
  · rw [ended_iff]
    exact finished_look_first_iff m x first second n
  · rw [ended_iff]
    exact finished_after_rounds_iff m x first second n
  · simp only [w]
    rw [first_look notYet, both_looks notYet, perform_of_lowest (Keypad.lowest?_eq_some_iff.mpr low), machine_start]
    exact ⟨rfl, rfl⟩
  · have empty : (first n).keypad.lowest? = none := by simpa [Keypad.lowest?_eq_none_iff, holding] using noKey
    simp only [w]
    rw [first_look notYet, both_looks notYet, perform_of_none (by exact empty), machine_start]
    exact ⟨rfl, rfl⟩
  · rw [last_of notYet, Bool.not_eq_true] at nothing
    exact cycle_of_not_ends (m := seen n) awaits nothing
  · rw [last_of notYet] at found
    refine ⟨by rw [cycle_of_ends (m := seen n) awaits found], ?_⟩
    rw [← look_twice_eq_cycle awaits found]
    simp only [w]
    rw [both_looks notYet, look_twice rfl]
    rfl
  · intro n k notYet low e y again
    have eq : e = (taken k).sharing (first n) := by
      simp only [e, w]
      rw [first_look notYet, perform_of_lowest (Keypad.lowest?_eq_some_iff.mpr low), machine_start]
    have still : e.keypad.lowest? = some k := by
      rw [eq]
      exact Keypad.lowest?_eq_some_iff.mpr low
    exact ⟨cycle_of_lowest again still, fun s low => look_start_of_lowest (Keypad.lowest?_eq_some_iff.mpr low) e y⟩
  · refine after_idle_then_pressed awaits waits (fun s member => ?_) key
    rw [← Bool.not_eq_true, ends_iff]
    simp [idle s member]

/-- A machine at the first of two instructions that await a key. -/
def twoWaits : Machine := (Machine.fresh .default []).load [0xF3, 0x0A, 0xF7, 0x0A]

/-- No key is held at first, keys C and 9 are held from the second round on. -/
def firstLooks (n : Nat) : Commons := ⟨.blank, if n = 0 then .idle else (Keypad.idle.press 0xC).press 0x9, false⟩

/-- Key C is pressed behind the first look for a key, and a wish to stop comes behind the second one. -/
def secondLooks (n : Nat) : Commons :=
  ⟨.blank, if n = 0 then Keypad.idle.press 0xC else (Keypad.idle.press 0xC).press 0x9, n ≠ 0⟩

theorem chord_ends_twoWaits :
    let w n := (start twoWaits 3).after (rounds firstLooks secondLooks n)
    let e := ((w 1).look (firstLooks 1)).machine
    let pressed := twoWaits.touch (.press 5)
    (w 1).stage ≠ .finished ∧ (w 2).stage = .finished ∧
      (w 2).machine = { twoWaits with pc := 0x202, v := twoWaits.v.set 3 9 }.sharing (secondLooks 1) ∧
      (e.cycle.outcome = .done ∧ e.cycle.machine.v.get (7 : Digit) = (9 : Digit).toByte) ∧
      (start twoWaits 3).after [twoWaits.commons, pressed.commons, pressed.commons] =
        ⟨pressed.cycle.machine, 3, .finished⟩ := by
  intro w e pressed
  have awaits : twoWaits.next = .awaitKey 3 := by decide +kernel
  obtain ⟨stages, left, again, blocked⟩ := ends_at_first_sight awaits firstLooks secondLooks
  have notYet : ¬ ∃ i < 1, (∃ k, (firstLooks i).keypad.holds k = true) ∨ (secondLooks i).stopping = true := by
    decide
  have low : (firstLooks 1).keypad.holds 9 = true ∧ ∀ j < 9, (firstLooks 1).keypad.holds j = false := by decide
  have ended : (w 2).stage = .finished := (stages 2).2.mpr ⟨1, by decide, .inl ⟨9, low.1⟩⟩
  refine ⟨fun finished => notYet ((stages 1).2.mp finished), ended, ?_, ?_, ?_⟩
  · have pc : (twoWaits.pc + 2) % 4096 = 0x202 := by decide
    rw [((left 1 notYet).1 9 low).2, pc]
    rfl
  · have awaitsAgain : e.next = .awaitKey 7 := by decide +kernel
    simpa only [e, w] using (again 1 9 notYet low 7 awaitsAgain).1
  · have waits : twoWaits.cycle.outcome = .waiting := by decide +kernel
    have idle : ∀ s ∈ [twoWaits.commons], (∀ k, s.keypad.holds k = false) ∧ s.stopping = false := by decide
    exact (blocked waits [twoWaits.commons] 5 idle).2

end KeyWait
end Chip8
