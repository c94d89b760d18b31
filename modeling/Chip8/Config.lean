import Chip8.Font

/-!
# Configuration

What a user can choose about a machine, and the limits that nobody can.
-/

namespace Chip8

/-- The choices of a user. -/
structure Config where
  /-- Instructions in a second. -/
  clockSpeed : UInt32
  /-- The address of the glyphs. -/
  fontBase : UInt16
deriving DecidableEq, Repr

/-- Instructions in a second if nobody asks for others. -/
def defaultClock : UInt32 := 500

/-- What holds if nobody chooses. -/
def Config.default : Config := ⟨defaultClock, Font.defaultBase⟩

instance : Inhabited Config := ⟨Config.default⟩

/-- Times in a second that the timers count down. -/
def timerRate : Nat := 60

/-- Where a program is put and begins. -/
def programStart : UInt16 := 0x200

/-- The number of empty words in a row at which a program has run off into unused memory. -/
def emptyLimit : UInt8 := 5

end Chip8
