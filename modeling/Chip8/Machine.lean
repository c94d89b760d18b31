import Chip8.Bitmap
import Chip8.CallStack
import Chip8.Event
import Chip8.Keypad
import Chip8.Memory
import Chip8.Rom

/-!
# The machine

The state of a machine, how it begins, and what acts on it from outside: programs, timers, keys and the
wish to stop.
-/

namespace Chip8

/-- The state of a machine. -/
structure Machine where
  memory : Memory
  stack : CallStack
  display : Bitmap
  keypad : Keypad
  /-- The address of the next instruction. -/
  pc : UInt16
  /-- The address that sprites and stored registers go by. It is never reduced to the size of memory. -/
  index : UInt16
  /-- The sixteen registers; the last one takes flags. -/
  v : Vector UInt8 16
  /-- The delay timer. -/
  delay : UInt8
  /-- The sound timer. -/
  sound : UInt8
  /-- The number of empty words met in a row. -/
  emptyRow : UInt8
  /-- Whether the machine was asked to stop; nothing takes this back. -/
  stopping : Bool
  /-- The random bytes to come. A machine that has used them up draws zeros. -/
  random : List UInt8

namespace Machine

/-- A machine that nothing was loaded into. -/
def fresh (config : Config) (random : List UInt8) : Machine where
  memory := Memory.fresh config.fontBase
  stack := CallStack.empty
  display := Bitmap.blank
  keypad := Keypad.idle
  pc := programStart
  index := 0
  v := Vector.replicate 16 0
  delay := 0
  sound := 0
  emptyRow := 0
  stopping := false
  random := random

/-- Puts a program into memory and goes to its start. All else stays. -/
def load (m : Machine) (rom : Rom) : Machine :=
  { m with memory := m.memory.load programStart rom, pc := programStart }

/-- Counts both timers down, to zero and no further. -/
def tick (m : Machine) : Machine :=
  { m with delay := if m.delay = 0 then 0 else m.delay - 1, sound := if m.sound = 0 then 0 else m.sound - 1 }

/-- Whether a tone is to be heard. -/
def isSounding (m : Machine) : Bool := 0 < m.sound

/-- Acts on the keypad. -/
def mapKeypad (m : Machine) (f : Keypad → Keypad) : Machine := { m with keypad := f m.keypad }

/-- Acts on the display. -/
def mapDisplay (m : Machine) (f : Bitmap → Bitmap) : Machine := { m with display := f m.display }

/-- Asks the machine to stop. -/
def stop (m : Machine) : Machine := { m with stopping := true }

/-- Adds random bytes to those to come. -/
def supply (m : Machine) (bytes : List UInt8) : Machine := { m with random := m.random ++ bytes }

/-- What a dump shows. -/
def registers (m : Machine) : Registers := ⟨m.v, m.pc, m.stack.pointer.val, m.index, m.delay, m.sound⟩

end Machine
end Chip8
