import Chip8.Error
import Chip8.Event

/-!
# Failures of a front end

What a front end tried in vain, with the reasons below it, and the report that it leaves.
-/

namespace Chip8

/-- What a front end tries. -/
inductive Attempt
  /-- To read the program. -/
  | loadRom
  /-- To get ready for a run. -/
  | setUp
  /-- To make a session. -/
  | makeSession
  /-- To begin a run. -/
  | beginRun
  /-- To bring a run to its end. -/
  | endRun
  /-- To open the sound output. -/
  | openAudio
  /-- To make a window. -/
  | makeWindow
  /-- To make the surface of a window. -/
  | makeSurface
  /-- To give the surface another size. -/
  | resizeSurface
  /-- To bring the surface to the window. -/
  | render
deriving DecidableEq, Repr

/-- What is said when an attempt fails. -/
def Attempt.message : Attempt → String
  | .loadRom => "Failed to load ROM"
  | .setUp => "Failed to initialize application"
  | .makeSession => "Failed to set up CHIP-8 runner"
  | .beginRun => "Failed to start CHIP-8 thread"
  | .endRun => "CHIP-8 execution error"
  | .openAudio => "Failed to open audio output stream"
  | .makeWindow => "Failed to create window"
  | .makeSurface => "Failed to create pixels surface"
  | .resizeSurface => "Failed to resize pixels surface"
  | .render => "Pixels render error"

/-- An attempt that failed, with the reasons, outermost first. -/
structure Failure where
  attempt : Attempt
  reasons : List String
deriving DecidableEq, Repr

namespace Failure

/-- What failed and why, outermost first. -/
def chain (f : Failure) : List String := f.attempt.message :: f.reasons

/-- An attempt that failed because of an error. -/
def ofError (a : Attempt) (e : Error) : Failure := ⟨a, e.chain⟩

/-- An attempt that failed because another did. -/
def within (f : Failure) (a : Attempt) : Failure := ⟨a, f.chain⟩

/-- Reasons with their numbers, or alone without one. -/
def numbered : List String → List String
  | [reason] => ["    " ++ reason]
  | reasons => reasons.zipIdx.map fun (reason, i) => "    " ++ toString i ++ ": " ++ reason

/-- The lines of a report. -/
def report (f : Failure) : List String :=
  ("Error: " ++ f.attempt.message) ::
    if f.reasons = [] then [] else "" :: "Caused by:" :: numbered f.reasons

end Failure

/-- Takes an error for the reason why an attempt failed. -/
def Attempt.guard {α : Type} (a : Attempt) (r : Except Error α) : Except Failure α := r.mapError (Failure.ofError a)

/-- A front end that could not be made ready, with what had been reported by then. -/
structure Aborted where
  failure : Failure
  log : List Event
deriving DecidableEq

end Chip8
