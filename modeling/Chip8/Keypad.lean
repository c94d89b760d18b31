import Chip8.Hex

/-!
# The keypad

Sixteen keys, each held or not. A key is named by the low four bits of a byte, so that every byte names one.
-/

namespace Chip8

/-- Which keys are held. -/
structure Keypad where
  keys : Vector Bool 16
deriving DecidableEq

namespace Keypad

/-- Number of keys. -/
def size : Nat := 16

/-- No key is held. -/
def idle : Keypad := ⟨Vector.replicate 16 false⟩

/-- Whether a key is held. -/
def holds (p : Keypad) (k : Digit) : Bool := p.keys.get k

/-- Whether the key that a byte names is held. -/
def isDown (p : Keypad) (k : UInt8) : Bool := p.holds (Digit.low k)

/-- Gives a key a state. -/
def put (p : Keypad) (k : Digit) (down : Bool) : Keypad := ⟨p.keys.set k.val down k.inside⟩

/-- Holds a key. -/
def press (p : Keypad) (k : UInt8) : Keypad := p.put (Digit.low k) true

/-- Lets a key go. -/
def release (p : Keypad) (k : UInt8) : Keypad := p.put (Digit.low k) false

/-- Turns the state of a key over. -/
def toggle (p : Keypad) (k : UInt8) : Keypad := p.put (Digit.low k) (!p.isDown k)

/-- The held keys in ascending order. -/
def held (p : Keypad) : List Digit := Digit.all.filter p.holds

/-- The lowest held key. -/
def lowest? (p : Keypad) : Option Digit := Digit.all.find? p.holds

/-! ## Which keys are held -/

@[simp] theorem holds_idle (k : Digit) : idle.holds k = false := by
  simp [idle, holds]

theorem holds_put (p : Keypad) (k j : Digit) (down : Bool) :
    (p.put k down).holds j = if k = j then down else p.holds j := by
  simp [put, holds]

theorem lowest?_eq_some_iff {p : Keypad} {k : Digit} :
    p.lowest? = some k ↔ p.holds k = true ∧ ∀ j < k, p.holds j = false := by
  rw [lowest?, List.find?_eq_some_iff_getElem]
  constructor
  · rintro ⟨held, i, inside, rfl, before⟩
    refine ⟨held, fun j lower => ?_⟩
    simp only [Digit.all, List.getElem_finRange, Fin.lt_def] at lower
    simpa [Digit.all] using before j.val lower
  · rintro ⟨held, before⟩
    refine ⟨held, k.val, by simp [Digit.all], by simp [Digit.all], fun j lower => ?_⟩
    simpa [Digit.all] using before ⟨j, Nat.lt_trans lower k.isLt⟩ lower

theorem isSome_lowest?_iff {p : Keypad} : p.lowest?.isSome = true ↔ ∃ k, p.holds k = true := by
  simp [lowest?, Digit.all]

theorem lowest?_eq_none_iff {p : Keypad} : p.lowest? = none ↔ ∀ k, p.holds k = false := by
  simp [lowest?, Digit.all]

@[simp] theorem mem_held {p : Keypad} {k : Digit} : k ∈ p.held ↔ p.holds k = true := by
  simp [held, Digit.all]

end Keypad
end Chip8
