import Chip8.Proofs.Checked.Parts
import Mathlib.Data.Finset.SymmDiff
import Mathlib.Data.List.DropRight
import Mathlib.Data.List.Induction
import Mathlib.Order.Bounds.Defs

/-!
# The keypad as a set of keys

Keys are pressed, released and toggled, all of them are let go, and questions are asked in between. A keypad goes
through the same steps as the set of its held keys (`Keypad.Refines`). What a key has been through since all were let
go last decides whether it is held (`Keypad.isDown_after`): it is as the last press or release has left it, turned over
once for each toggle since (`Keypad.foldl_apply_iff`).
-/

namespace Chip8
namespace Keypad

/-- What can be done to one key. -/
inductive Turn
  | press
  | release
  | toggle
deriving DecidableEq

/-- Whether a key is held after it was turned. -/
def Turn.apply (down : Bool) : Turn → Bool
  | .press => true
  | .release => false
  | .toggle => !down

/-- What can be asked of a keypad: to turn the key that a byte names, to let all keys go, or to tell what is held. -/
inductive Call
  | turn (t : Turn) (k : UInt8)
  | reset
  | isDown (k : UInt8)
  | lowest
  | snapshot

/-- What a keypad answers. -/
inductive Answer
  | done
  | isDown (down : Bool)
  | lowest (k : Option Digit)
  | snapshot (keys : Vector Bool 16)

namespace Call

def isReset : Call → Bool
  | .reset => true
  | _ => false

/-- Whether a call is a question. -/
def asks : Call → Bool
  | .turn _ _ | .reset => false
  | .isDown _ | .lowest | .snapshot => true

/-- What a call does to the key that a byte names. -/
def turnOf? (k : UInt8) : Call → Option Turn
  | .turn t j => if j.toNat % 16 = k.toNat % 16 then some t else none
  | _ => none

/-- What a call does to a set of keys. -/
def onSet (keys : Finset Digit) : Call → Finset Digit
  | .turn .press k => insert (Digit.low k) keys
  | .turn .release k => keys.erase (Digit.low k)
  | .turn .toggle k => symmDiff keys {Digit.low k}
  | .reset => ∅
  | .isDown _ | .lowest | .snapshot => keys

end Call

def call (p : Keypad) : Call → Answer × Keypad
  | .turn .press k => (.done, p.press k)
  | .turn .release k => (.done, p.release k)
  | .turn .toggle k => (.done, p.toggle k)
  | .reset => (.done, idle)
  | .isDown k => (.isDown (p.isDown k), p)
  | .lowest => (.lowest p.lowest?, p)
  | .snapshot => (.snapshot p.keys, p)

/-- The keypad after calls, one after another. -/
def after (p : Keypad) (cs : List Call) : Keypad := cs.foldl (fun p c => (p.call c).2) p

/-- What a keypad answers to calls, one after another. -/
def answers (p : Keypad) : List Call → List Answer
  | [] => []
  | c :: rest => (p.call c).1 :: (p.call c).2.answers rest

/-- The set of keys after calls, one after another. -/
def setAfter (cs : List Call) : Finset Digit := cs.foldl Call.onSet ∅

/-- What the key that a byte names has been through since all keys were let go last. -/
def turnsOf (k : UInt8) (cs : List Call) : List Turn :=
  (cs.rtakeWhile fun c => !c.isReset).filterMap (Call.turnOf? k)

/-- How often a key was toggled since it was pressed or released last. -/
def toggles (ts : List Turn) : Nat := (ts.rtakeWhile (· = .toggle)).length

/-- The last press or release of a key. -/
def lastSet? (ts : List Turn) : Option Turn := (ts.rdropWhile (· = .toggle)).getLast?

/-- The held keys are those of a set. -/
def Refines (p : Keypad) (keys : Finset Digit) : Prop := ∀ j, p.holds j = true ↔ j ∈ keys

end Keypad

namespace Checked

/-- One call of a keypad with every check. -/
def call (p : Keypad) : Keypad.Call → Except Fault (Keypad.Answer × Keypad)
  | .turn .press k => do return (.done, ← put p k true)
  | .turn .release k => do return (.done, ← put p k false)
  | .turn .toggle k => do return (.done, ← put p k (!(← isDown p k)))
  | .reset => return (.done, .idle)
  | .isDown k => do return (.isDown (← isDown p k), p)
  | .lowest => do return (.lowest (← lowest? p), p)
  | .snapshot => return (.snapshot p.keys, p)

theorem call_eq (p : Keypad) (c : Keypad.Call) : call p c = .ok (p.call c) := by
  cases c with
  | turn t k => cases t <;> simp [call, put_eq, isDown_eq, Keypad.call, Keypad.press, Keypad.release, Keypad.toggle]
  | reset => rfl
  | isDown k => simp [call, isDown_eq, Keypad.call]
  | lowest => simp [call, lowest?_eq, Keypad.call]
  | snapshot => rfl

/-- Calls of a keypad with every check, one after another, and what it answers. -/
def calls (p : Keypad) : List Keypad.Call → Except Fault (List Keypad.Answer × Keypad)
  | [] => return ([], p)
  | c :: rest => do
    let (a, q) ← call p c
    let (as, r) ← calls q rest
    return (a :: as, r)

theorem calls_eq (p : Keypad) (cs : List Keypad.Call) : calls p cs = .ok (p.answers cs, p.after cs) := by
  induction cs generalizing p with
  | nil => rfl
  | cons c rest ih =>
    simp only [calls, call_eq, ok_bind, ih]
    rfl

end Checked

namespace Keypad

theorem after_snoc (p : Keypad) (cs : List Call) (c : Call) : p.after (cs ++ [c]) = ((p.after cs).call c).2 :=
  List.foldl_append

theorem keypad_of_asks {c : Call} (asks : c.asks = true) (p : Keypad) : (p.call c).2 = p := by
  cases c with
  | turn t k => cases asks
  | reset => cases asks
  | isDown k => rfl
  | lowest => rfl
  | snapshot => rfl

/-- Questions leave no trace. -/
theorem after_unasked (p : Keypad) (cs : List Call) : p.after (cs.filter fun c => !c.asks) = p.after cs := by
  induction cs using List.reverseRecOn with
  | nil => rfl
  | append_singleton cs c ih =>
    rw [List.filter_append, after_snoc, ← ih]
    cases asks : c.asks with
    | true => simp [asks, keypad_of_asks asks]
    | false => simp [asks, after_snoc]

/-! ## One key -/

theorem holds_turn (p : Keypad) (t : Turn) (k : UInt8) (j : Digit) :
    (p.call (.turn t k)).2.holds j = if Digit.low k = j then t.apply (p.holds j) else p.holds j := by
  by_cases same : Digit.low k = j
  · cases t <;> simp [call, press, release, toggle, isDown, holds_put, Turn.apply, same]
  · cases t <;> simp [call, press, release, toggle, holds_put, same]

theorem isDown_turn (p : Keypad) (t : Turn) (j k : UInt8) :
    (p.call (.turn t j)).2.isDown k =
      if j.toNat % 16 = k.toNat % 16 then t.apply (p.isDown k) else p.isDown k := by
  rw [isDown, holds_turn]
  simp only [Digit.low, Fin.mk.injEq]
  rfl

theorem isDown_call {c : Call} (keeps : c.isReset = false) (p : Keypad) (k : UInt8) :
    (p.call c).2.isDown k = (c.turnOf? k).toList.foldl Turn.apply (p.isDown k) := by
  cases c with
  | turn t j =>
    rw [isDown_turn, Call.turnOf?]
    split <;> rfl
  | reset => cases keeps
  | isDown j => rfl
  | lowest => rfl
  | snapshot => rfl

/-- A key is held or not as its own turns have left it. -/
theorem isDown_after (cs : List Call) (k : UInt8) :
    (idle.after cs).isDown k = (turnsOf k cs).foldl Turn.apply false := by
  induction cs using List.reverseRecOn with
  | nil => simp [after, isDown, turnsOf]
  | append_singleton cs c ih =>
    rw [after_snoc, turnsOf]
    -- A reset empties the turns that count, and any other call adds one to them at most.
    cases resets : c.isReset with
    | true =>
      obtain rfl : c = .reset := by
        cases c with
        | reset => rfl
        | _ => cases resets
      rw [List.rtakeWhile_concat_neg _ _ _ (by simp [resets])]
      simp [call, isDown]
    | false =>
      rw [List.rtakeWhile_concat_pos _ _ _ (by simp [resets]), List.filterMap_append, List.foldl_append,
        isDown_call resets, ih]
      cases turn : c.turnOf? k <;> simp [turn, turnsOf]

/-! ## Turns of one key -/

theorem lastSet?_ne_toggle (ts : List Turn) : lastSet? ts ≠ some .toggle := by
  intro last
  obtain ⟨rest, split⟩ := List.getLast?_eq_some_iff.mp last
  have kept : ts.rdropWhile (· = .toggle) ≠ [] := by simp [split]
  have other := List.rdropWhile_last_not _ _ kept
  simp [split] at other

/-- A key is as its last press or release has left it, turned over once for each toggle since. -/
theorem foldl_apply_iff (ts : List Turn) :
    ts.foldl Turn.apply false = true ↔
      (toggles ts % 2 = 0 ∧ lastSet? ts = some .press) ∨
      (toggles ts % 2 = 1 ∧ (lastSet? ts = some .release ∨ lastSet? ts = none)) := by
  induction ts using List.reverseRecOn with
  | nil => simp [toggles, lastSet?]
  | append_singleton ts t ih =>
    rw [List.foldl_append]
    cases t with
    | press => simp [toggles, lastSet?, Turn.apply]
    | release => simp [toggles, lastSet?, Turn.apply]
    | toggle =>
      have counted : toggles (ts ++ [.toggle]) = toggles ts + 1 := by simp [toggles]
      have same : lastSet? (ts ++ [.toggle]) = lastSet? ts := by simp [lastSet?]
      have never := lastSet?_ne_toggle ts
      -- With one toggle more, an even number becomes odd and the other way round; what was set last stays.
      have even : (toggles ts + 1) % 2 = 0 ↔ toggles ts % 2 = 1 := by omega
      have odd : (toggles ts + 1) % 2 = 1 ↔ toggles ts % 2 = 0 := by omega
      rw [counted, same, even, odd]
      show (!(ts.foldl Turn.apply false)) = true ↔ _
      rw [Bool.not_eq_true', ← Bool.not_eq_true, ih]
      cases last : lastSet? ts with
      | none => simp
      | some t =>
        cases t with
        | press => simp
        | release => simp
        | toggle => exact absurd last never

/-! ## The set of held keys -/

theorem Refines.call {p : Keypad} {keys : Finset Digit} (refines : p.Refines keys) (c : Call) :
    (p.call c).2.Refines (c.onSet keys) := by
  intro j
  cases c with
  | turn t k =>
    rw [holds_turn]
    by_cases same : Digit.low k = j
    · cases t <;> simp [Call.onSet, Turn.apply, same, Finset.mem_symmDiff, ← refines j]
    · cases t <;> simp [Call.onSet, same, Ne.symm same, Finset.mem_symmDiff, refines j]
  | reset => simp [Keypad.call, Call.onSet]
  | isDown k => exact refines j
  | lowest => exact refines j
  | snapshot => exact refines j

theorem refines_after (cs : List Call) : (idle.after cs).Refines (setAfter cs) := by
  induction cs using List.reverseRecOn with
  | nil =>
    intro j
    simp [after, setAfter]
  | append_singleton cs c ih =>
    rw [after_snoc, setAfter, List.foldl_append]
    exact ih.call c

/-! ## Questions -/

@[simp] theorem isDown_toByte (p : Keypad) (j : Digit) : p.isDown j.toByte = p.holds j := by
  rw [isDown, Digit.low_toByte]

theorem lowest?_eq_some_iff_isLeast (p : Keypad) (k : Digit) :
    p.lowest? = some k ↔ IsLeast {j : Digit | p.isDown j.toByte = true} k := by
  rw [lowest?_eq_some_iff]
  simp only [isDown_toByte]
  refine and_congr_right fun _ => ⟨fun before j (held : p.holds j = true) => ?_, fun least j lower => ?_⟩
  · apply Nat.le_of_not_lt
    intro lower
    rw [before j lower] at held
    cases held
  · rw [← Bool.not_eq_true]
    exact fun held => absurd (least held) (Nat.not_le_of_lt lower)

/-- From an idle keypad, any calls in any order succeed with every check, and hold the keys of a set that goes through
the same steps. Only what the key of a byte has been through since all keys were let go last decides whether it is
held: an even number of toggles behind its last press, or an odd number behind its last release or without either. The
lowest held key is the least of them, and is missing if no key is held; a snapshot shows every key; questions change
nothing. -/
theorem calls_refine_key_set (cs : List Call) :
    let p := idle.after cs
    Checked.calls idle cs = .ok (idle.answers cs, p) ∧
    p.Refines (setAfter cs) ∧
    (∀ k, let ts := turnsOf k cs
      p.isDown k = true ↔
        (toggles ts % 2 = 0 ∧ lastSet? ts = some .press) ∨
        (toggles ts % 2 = 1 ∧ (lastSet? ts = some .release ∨ lastSet? ts = none))) ∧
    (∀ k, p.lowest? = some k ↔ IsLeast {j : Digit | p.isDown j.toByte = true} k) ∧
    (p.lowest? = none ↔ ∀ j : Digit, p.isDown j.toByte = false) ∧
    (p.call .snapshot).1 = .snapshot (Vector.ofFn fun j : Digit => p.isDown j.toByte) ∧
    idle.after (cs.filter fun c => !c.asks) = p := by
  intro p
  refine ⟨Checked.calls_eq idle cs, refines_after cs, ?_, p.lowest?_eq_some_iff_isLeast, ?_, ?_,
    idle.after_unasked cs⟩
  · intro k ts
    rw [isDown_after]
    exact foldl_apply_iff ts
  · simp only [isDown_toByte]
    exact lowest?_eq_none_iff
  · have shown : p.keys = Vector.ofFn fun j : Digit => p.isDown j.toByte :=
      Table.ext_get fun j => by simp [holds]
    exact congrArg Answer.snapshot shown

/-- Keys are pressed and toggled before all are let go, and others are turned behind that, by bytes above fifteen too. -/
def chord : List Call :=
  [.turn .press 0x1A, .turn .toggle 0x03, .reset, .turn .toggle 0xF5, .isDown 0x05, .turn .release 0x2C,
    .turn .toggle 0x0C, .lowest, .turn .press 0x07, .turn .toggle 0x87, .turn .toggle 0x17]

theorem chord_refines_set :
    setAfter chord = {0x5, 0x7, 0xC} ∧ (idle.after chord).isDown 0x3C = true ∧ (idle.after chord).isDown 0x77 = true ∧
      (idle.after chord).isDown 0x0A = false ∧ (idle.after chord).lowest? = some 0x5 := by
  obtain ⟨-, refines, down, lowest, -⟩ := calls_refine_key_set chord
  have keys : setAfter chord = {0x5, 0x7, 0xC} := by decide
  refine ⟨keys, (down 0x3C).mpr (by decide), (down 0x77).mpr (by decide), ?_, (lowest 0x5).mpr ⟨?_, ?_⟩⟩
  · rw [← Bool.not_eq_true]
    exact fun held => absurd ((down 0x0A).mp held) (by decide)
  · simp [refines 0x5, keys]
  · intro j (held : (idle.after chord).isDown j.toByte = true)
    rw [isDown_toByte, refines j, keys] at held
    revert j
    decide

end Keypad
end Chip8
