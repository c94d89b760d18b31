import Chip8.Instruction

/-!
# Decoding

The instruction that a word stands for. The first digit chooses the form, and the rest of the word is taken
apart into operands; a word that fits no form is unknown.
-/

namespace Chip8

namespace Word

/-- The first digit of a word. -/
def head (w : UInt16) : Nat := (w >>> 12).toNat

/-- The field `x`, the second digit. -/
def x (w : UInt16) : Digit := Digit.low (w >>> 8).toUInt8

/-- The field `y`, the third digit. -/
def y (w : UInt16) : Digit := Digit.low (w >>> 4).toUInt8

/-- The field `n`, the last digit. -/
def n (w : UInt16) : Digit := Digit.low w.toUInt8

/-- The field `kk`, the last two digits. -/
def kk (w : UInt16) : UInt8 := w.toUInt8

/-- The field `nnn`, the last three digits. -/
def nnn (w : UInt16) : UInt16 := w &&& 0x0FFF

end Word

namespace Instruction
open Word

/-- The words of the form `0...`. -/
def decodeSystem (w : UInt16) : Instruction :=
  if w = 0x0000 then .empty else if w = 0x00E0 then .clear else if w = 0x00EE then .ret else .unknown w

/-- The words of the form `8xyN`. -/
def decodeArithmetic (w : UInt16) : Instruction :=
  match Arithmetic.ofCode? (w &&& 0x000F) with
  | some op => .arithmetic op (x w) (y w)
  | none => .unknown w

/-- The words of the form `E...`. -/
def decodeKey (w : UInt16) : Instruction :=
  match (kk w).toNat with
  | 0x9E => .skipIfHeld (x w)
  | 0xA1 => .skipUnlessHeld (x w)
  | _ => .unknown w

/-- The words of the form `F...`. -/
def decodeTransfer (w : UInt16) : Instruction :=
  match (kk w).toNat with
  | 0x07 => .readDelay (x w)
  | 0x0A => .awaitKey (x w)
  | 0x15 => .setDelay (x w)
  | 0x18 => .setSound (x w)
  | 0x1E => .addIndex (x w)
  | 0x29 => .glyph (x w)
  | 0x33 => .decimal (x w)
  | 0x55 => .store (x w)
  | 0x65 => .fill (x w)
  | _ => .unknown w

/-- The instruction that a word stands for. -/
def decode (w : UInt16) : Instruction :=
  match head w with
  | 0x0 => decodeSystem w
  | 0x1 => .jump (nnn w)
  | 0x2 => .call (nnn w)
  | 0x3 => .skipIfByte (x w) (kk w)
  | 0x4 => .skipUnlessByte (x w) (kk w)
  | 0x5 => if n w = 0 then .skipIfSame (x w) (y w) else .unknown w
  | 0x6 => .setByte (x w) (kk w)
  | 0x7 => .addByte (x w) (kk w)
  | 0x8 => decodeArithmetic w
  | 0x9 => if n w = 0 then .skipUnlessSame (x w) (y w) else .unknown w
  | 0xA => .setIndex (nnn w)
  | 0xB => .jumpFrom (nnn w)
  | 0xC => .random (x w) (kk w)
  | 0xD => .draw (x w) (y w) (n w)
  | 0xE => decodeKey w
  | _ => decodeTransfer w

end Instruction
end Chip8
