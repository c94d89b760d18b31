import Chip8.Table

/-!
# Hexadecimal digits

The sixteen digits name the registers, the keys and the glyphs. Numbers are written with them in upper
case, in at least a given number of places.
-/

namespace Chip8

/-- One hexadecimal digit: a register, a key or a glyph. -/
abbrev Digit := Fin 16

/-- A byte that was taken for a digit. -/
structure NotADigit where
  byte : UInt8
deriving DecidableEq, Repr

/-- The wording of the refusal. -/
def NotADigit.message (_ : NotADigit) : String := "u4 value must be in range 0x0-0xF"

namespace Digit

theorem inside (d : Digit) : d.val < 16 := d.isLt

/-- A digit can be written as a number. -/
instance (priority := high) neZero : @NeZero Nat Zero.ofOfNat0 16 := ⟨by decide⟩

/-- The digit in the low four bits of a byte. -/
def low (b : UInt8) : Digit := ⟨b.toNat % 16, Nat.mod_lt _ (by decide)⟩

/-- The digit equal to a byte; one above fifteen is refused. -/
def ofByte (b : UInt8) : Except NotADigit Digit :=
  if h : b.toNat < 16 then .ok ⟨b.toNat, h⟩ else .error ⟨b⟩

/-- The byte equal to a digit. -/
def toByte (d : Digit) : UInt8 := UInt8.ofNat d.val

@[simp] theorem low_toByte (d : Digit) : low d.toByte = d := by
  revert d
  decide

/-- The upper-case character of a digit. -/
def char (d : Digit) : Char := if d.val < 10 then Char.ofNat (48 + d.val) else Char.ofNat (55 + d.val)

/-- All digits in ascending order. -/
def all : List Digit := List.finRange 16

/-- A search for something that no two digits have finds the one that has it. -/
theorem find?_all_eq_some_iff {p : Digit → Bool} (unique : ∀ j k, p j = true → p k = true → j = k) {k : Digit} :
    all.find? p = some k ↔ p k = true := by
  refine ⟨List.find?_some, fun has => ?_⟩
  cases found : all.find? p with
  | none =>
    have missing := List.find?_eq_none.mp found k (by simp [all])
    contradiction
  | some j => rw [unique j k (List.find?_some found) has]

end Digit

namespace Hex

/-- The upper-case digits of a number, without leading zeros. -/
def digits (n : Nat) : List Char := (Nat.toDigits 16 n).map Char.toUpper

/-- A number in upper-case digits, filled up with zeros to a number of places. -/
def padded (places n : Nat) : String := String.ofList ((digits n).leftpad places '0')

/-- An address behind its marker, in at least three places. -/
def address (a : UInt16) : String := "0x" ++ padded 3 a.toNat

end Hex

namespace Decimal

/-- A number in decimal, filled up with zeros to a number of places. -/
def padded (places n : Nat) : String := String.ofList ((Nat.toDigits 10 n).leftpad places '0')

end Decimal

end Chip8
