/-!
# Numbers in arguments

A number is read digit by digit from the left. At each place a character that is no digit is found before
the number is found to be out of bounds.
-/

namespace Chip8.CommandLine

/-- Why a text is not a number. -/
inductive NumberFault
  | empty
  | invalidDigit
  | tooLarge
  | tooSmall
deriving DecidableEq, Repr

/-- The wording of a fault. -/
def NumberFault.message : NumberFault → String
  | .empty => "cannot parse integer from empty string"
  | .invalidDigit => "invalid digit found in string"
  | .tooLarge => "number too large to fit in target type"
  | .tooSmall => "number too small to fit in target type"

namespace Number

/-- The value of a digit. -/
def digit? (radix : Nat) (c : Char) : Option Nat :=
  let n := c.toNat
  let d :=
    if 48 ≤ n ∧ n ≤ 57 then n - 48
    else if 65 ≤ n ∧ n ≤ 90 then n - 55
    else if 97 ≤ n ∧ n ≤ 122 then n - 87
    else radix
  if d < radix then some d else none

/-- Reads digits after those already read; the outcome may not go above a bound. -/
def digits (radix bound : Nat) (beyond : NumberFault) : Nat → List Char → Except NumberFault Nat
  | n, [] => .ok n
  | n, c :: rest =>
    match digit? radix c with
    | none => .error .invalidDigit
    | some d =>
      if radix * n + d ≤ bound then digits radix bound beyond (radix * n + d) rest else .error beyond

/-- Reads digits, of which there has to be one. -/
def someDigits (radix bound : Nat) (beyond : NumberFault) (cs : List Char) : Except NumberFault Nat :=
  if cs = [] then .error .invalidDigit else digits radix bound beyond 0 cs

/-- Reads a number without a minus sign. -/
def unsigned (radix bound : Nat) : List Char → Except NumberFault Nat
  | [] => .error .empty
  | '+' :: rest => someDigits radix bound .tooLarge rest
  | cs => someDigits radix bound .tooLarge cs

/-- Reads a decimal number of 64 bits with a sign. -/
def signed : List Char → Except NumberFault Int
  | '-' :: rest => (someDigits 10 9223372036854775808 .tooSmall rest).map fun n => -(n : Int)
  | cs => (unsigned 10 9223372036854775807 cs).map Int.ofNat

end Number
end Chip8.CommandLine
