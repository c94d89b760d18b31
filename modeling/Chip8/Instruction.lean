import Chip8.Hex

/-!
# Instructions

The instruction set, with the word that each instruction is written as. The operands of a word are the
fields `x`, `y` and `n` of four bits, `kk` of eight bits and `nnn` of twelve bits.
-/

namespace Chip8

/-- Arithmetic on two registers, written `8xyN`. -/
inductive Arithmetic
  /-- Vx becomes Vy (`8xy0`). -/
  | copy
  /-- Vx or Vy (`8xy1`). -/
  | or
  /-- Vx and Vy (`8xy2`). -/
  | and
  /-- Vx exclusive or Vy (`8xy3`). -/
  | xor
  /-- Vx plus Vy; the flag is the carry (`8xy4`). -/
  | add
  /-- Vx minus Vy; the flag says that nothing was borrowed (`8xy5`). -/
  | sub
  /-- Vx halved; the flag is the bit shifted out (`8xy6`). -/
  | shiftRight
  /-- Vy minus Vx; the flag says that nothing was borrowed (`8xy7`). -/
  | subReverse
  /-- Vx doubled; the flag is the bit shifted out (`8xyE`). -/
  | shiftLeft
deriving DecidableEq, Repr

/-- What a word tells the machine to do. -/
inductive Instruction
  /-- Memory that was never written (`0000`). -/
  | empty
  /-- Switch all pixels off (`00E0`). -/
  | clear
  /-- Return from a subroutine (`00EE`). -/
  | ret
  /-- Go to `nnn` (`1nnn`). -/
  | jump (nnn : UInt16)
  /-- Call the subroutine at `nnn` (`2nnn`). -/
  | call (nnn : UInt16)
  /-- Skip the next instruction if Vx is `kk` (`3xkk`). -/
  | skipIfByte (x : Digit) (kk : UInt8)
  /-- Skip the next instruction if Vx is not `kk` (`4xkk`). -/
  | skipUnlessByte (x : Digit) (kk : UInt8)
  /-- Skip the next instruction if Vx is Vy (`5xy0`). -/
  | skipIfSame (x y : Digit)
  /-- Vx becomes `kk` (`6xkk`). -/
  | setByte (x : Digit) (kk : UInt8)
  /-- Add `kk` to Vx (`7xkk`). -/
  | addByte (x : Digit) (kk : UInt8)
  /-- Arithmetic on Vx and Vy (`8xyN`). -/
  | arithmetic (op : Arithmetic) (x y : Digit)
  /-- Skip the next instruction if Vx is not Vy (`9xy0`). -/
  | skipUnlessSame (x y : Digit)
  /-- The index becomes `nnn` (`Annn`). -/
  | setIndex (nnn : UInt16)
  /-- Go to `nnn` plus V0 (`Bnnn`). -/
  | jumpFrom (nnn : UInt16)
  /-- Vx becomes a random byte under the mask `kk` (`Cxkk`). -/
  | random (x : Digit) (kk : UInt8)
  /-- Draw the `n` rows at the index at column Vx and row Vy (`Dxyn`). -/
  | draw (x y n : Digit)
  /-- Skip the next instruction if the key Vx is held (`Ex9E`). -/
  | skipIfHeld (x : Digit)
  /-- Skip the next instruction if the key Vx is not held (`ExA1`). -/
  | skipUnlessHeld (x : Digit)
  /-- Vx becomes the delay timer (`Fx07`). -/
  | readDelay (x : Digit)
  /-- Wait for a key and put it into Vx (`Fx0A`). -/
  | awaitKey (x : Digit)
  /-- The delay timer becomes Vx (`Fx15`). -/
  | setDelay (x : Digit)
  /-- The sound timer becomes Vx (`Fx18`). -/
  | setSound (x : Digit)
  /-- Add Vx to the index (`Fx1E`). -/
  | addIndex (x : Digit)
  /-- The index becomes the address of the glyph Vx (`Fx29`). -/
  | glyph (x : Digit)
  /-- Write the three decimal digits of Vx at the index (`Fx33`). -/
  | decimal (x : Digit)
  /-- Write V0 to Vx at the index (`Fx55`). -/
  | store (x : Digit)
  /-- Read V0 to Vx from the index (`Fx65`). -/
  | fill (x : Digit)
  /-- A word that is no instruction. -/
  | unknown (word : UInt16)
deriving DecidableEq, Repr

namespace Arithmetic

/-- All operations, in the order of their codes. -/
def all : List Arithmetic :=
  [.copy, .or, .and, .xor, .add, .sub, .shiftRight, .subReverse, .shiftLeft]

/-- The last digit of the word. -/
def code : Arithmetic → UInt16
  | .copy => 0x0
  | .or => 0x1
  | .and => 0x2
  | .xor => 0x3
  | .add => 0x4
  | .sub => 0x5
  | .shiftRight => 0x6
  | .subReverse => 0x7
  | .shiftLeft => 0xE

/-- The operation with a code. -/
def ofCode? (n : UInt16) : Option Arithmetic := all.find? (·.code = n)

end Arithmetic

namespace Instruction

/-- The word `h000` with the operands that follow its first digit. -/
def stamp (head : UInt16) (operands : UInt16) : UInt16 := head <<< 12 ||| operands

/-- The operand `x` in its place. -/
def atX (x : Digit) : UInt16 := UInt16.ofNat x.val <<< 8

/-- The operand `y` in its place. -/
def atY (y : Digit) : UInt16 := UInt16.ofNat y.val <<< 4

/-- The word that an instruction is written as. -/
def encode : Instruction → UInt16
  | .empty => 0x0000
  | .clear => 0x00E0
  | .ret => 0x00EE
  | .jump nnn => stamp 0x1 nnn
  | .call nnn => stamp 0x2 nnn
  | .skipIfByte x kk => stamp 0x3 (atX x ||| kk.toUInt16)
  | .skipUnlessByte x kk => stamp 0x4 (atX x ||| kk.toUInt16)
  | .skipIfSame x y => stamp 0x5 (atX x ||| atY y)
  | .setByte x kk => stamp 0x6 (atX x ||| kk.toUInt16)
  | .addByte x kk => stamp 0x7 (atX x ||| kk.toUInt16)
  | .arithmetic op x y => stamp 0x8 (atX x ||| atY y ||| op.code)
  | .skipUnlessSame x y => stamp 0x9 (atX x ||| atY y)
  | .setIndex nnn => stamp 0xA nnn
  | .jumpFrom nnn => stamp 0xB nnn
  | .random x kk => stamp 0xC (atX x ||| kk.toUInt16)
  | .draw x y n => stamp 0xD (atX x ||| atY y ||| UInt16.ofNat n.val)
  | .skipIfHeld x => stamp 0xE (atX x ||| 0x9E)
  | .skipUnlessHeld x => stamp 0xE (atX x ||| 0xA1)
  | .readDelay x => stamp 0xF (atX x ||| 0x07)
  | .awaitKey x => stamp 0xF (atX x ||| 0x0A)
  | .setDelay x => stamp 0xF (atX x ||| 0x15)
  | .setSound x => stamp 0xF (atX x ||| 0x18)
  | .addIndex x => stamp 0xF (atX x ||| 0x1E)
  | .glyph x => stamp 0xF (atX x ||| 0x29)
  | .decimal x => stamp 0xF (atX x ||| 0x33)
  | .store x => stamp 0xF (atX x ||| 0x55)
  | .fill x => stamp 0xF (atX x ||| 0x65)
  | .unknown word => word

end Instruction
end Chip8
