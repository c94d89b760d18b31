import Chip8.CommandLine.Options
import Chip8.Failure
import Chip8.Rom

/-!
# How a front end ends

The exit code, the log and the report that a front end leaves, and what comes before it can be made ready: reading
its arguments, then the program.
-/

namespace Chip8.CommandLine

/-- What a front end leaves behind. -/
structure Exit where
  code : Nat
  log : List Event
  report : List String
deriving DecidableEq

namespace Exit

/-- Arguments were refused; asking for help is no fault. In a report, interrupted control sequences are resumed. -/
def ofRefusal (r : Refusal) : Exit := if r = .help then ⟨0, [], []⟩ else ⟨2, [], [r.headline .resumed]⟩

/-- Something failed. -/
def ofFailure (log : List Event) (f : Failure) : Exit := ⟨1, log, f.report⟩

/-- The front end could not be made ready. -/
def ofAborted (a : Aborted) : Exit := ofFailure a.log (a.failure.within .setUp)

/-- The front end ended as the user wanted unless something failed. -/
def ofResult (log : List Event) : Option Failure → Exit
  | none => ⟨0, log, []⟩
  | some f => ofFailure log f

/-- Only the events that a log down to a severity shows. -/
def shownAt (e : Exit) (least : Severity) : Exit := { e with log := e.log.filter (·.shownAt least) }

end Exit

/-- The program and the configuration that arguments name. -/
def prepare (files : Files) (arguments : List String) : Except Exit (Rom × Config) := do
  let options ← (Options.ofArguments arguments).mapError Exit.ofRefusal
  let rom ← (Attempt.loadRom.guard (Rom.read files options.path)).mapError (Exit.ofFailure [])
  return (rom, options.config)

end Chip8.CommandLine
