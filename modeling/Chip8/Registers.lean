import Chip8.Hex

/-!
# The register dump

What a dump shows of a machine, and its text of twenty-two lines.
-/

namespace Chip8

/-- The parts of a machine that a dump shows. -/
structure Registers where
  v : Vector UInt8 16
  pc : UInt16
  /-- The pointer of the call stack. -/
  depth : Nat
  index : UInt16
  delay : UInt8
  sound : UInt8
deriving DecidableEq

namespace Registers

/-- The line of one of the sixteen registers. -/
def line (r : Registers) (x : Digit) : String :=
  "V" ++ String.singleton x.char ++ ": " ++ Hex.padded 2 (r.v.get x).toNat

/-- The lines of a dump. -/
def lines (r : Registers) : List String :=
  "Registers:" :: Digit.all.map r.line ++ [
    "PC: " ++ Hex.padded 3 r.pc.toNat,
    "SP: " ++ Decimal.padded 2 r.depth,
    "I:  " ++ Hex.padded 3 r.index.toNat,
    "DT: " ++ Hex.padded 2 r.delay.toNat,
    "ST: " ++ Hex.padded 2 r.sound.toNat]

/-- The text of a dump; its last line is not ended. -/
def text (r : Registers) : String := String.intercalate "\n" r.lines

end Registers
end Chip8
