import Chip8.Error

/-!
# Programs

A program is the bytes of a file, taken as they are; an empty file is a program too.
-/

namespace Chip8

/-- The bytes of a program. -/
abbrev Rom := List UInt8

/-- What reading each path gives. -/
abbrev Files := String → Except FileFault Rom

namespace Rom

/-- Reads the program at a path. -/
def read (files : Files) (path : String) : Except Error Rom :=
  (files path).mapError (.unreadable path)

end Rom
end Chip8
