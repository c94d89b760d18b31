import Chip8.Text.Quoted

/-!
# What can go wrong

Why a file cannot be read, and why a machine cannot be set up or run. An error carries its cause, and
its wording stands here alone.
-/

namespace Chip8

/-- Why a file cannot be read. -/
inductive FileFault
  /-- There is nothing at the path. -/
  | notFound
  /-- A directory is at the path. -/
  | isDirectory
  /-- The path has a zero character. -/
  | zeroInName
  /-- A name in the path, or the path, is too long. -/
  | nameTooLong
  /-- The system gives a reason of its own. -/
  | other (reason : String)
deriving DecidableEq, Repr

/-- The wording of a fault. -/
def FileFault.message : FileFault → String
  | .notFound => "No such file or directory (os error 2)"
  | .isDirectory => "Is a directory (os error 21)"
  | .zeroInName => "file name contained an unexpected NUL byte"
  | .nameTooLong => "File name too long (os error 36)"
  | .other reason => reason

/-- Why a machine cannot be set up or run. -/
inductive Error
  /-- The file of the program cannot be read. -/
  | unreadable (path : String) (fault : FileFault)
  /-- The clock would never tick. -/
  | clockSpeed (given : UInt32)
  /-- A machine runs once. -/
  | alreadyStopped
  /-- There is no thread for the machine. -/
  | noThread
  /-- The thread of the machine broke off. -/
  | brokenThread
deriving DecidableEq, Repr

namespace Error

/-- The wording of an error, without its cause. -/
def message : Error → String
  | .unreadable path _ => "Failed to read ROM file " ++ Text.quoted path
  | .clockSpeed given => "Clock speed must be at least 1 cycle per second, got " ++ toString given.toNat
  | .alreadyStopped => "The VM has already stopped and cannot be resumed"
  | .noThread => "Failed to spawn the VM thread"
  | .brokenThread => "The VM thread panicked"

/-- The wordings of an error and what caused it, outermost first. -/
def chain : Error → List String
  | e@(.unreadable _ fault) => [e.message, fault.message]
  | e => [e.message]

end Error
end Chip8
