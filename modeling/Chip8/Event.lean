import Chip8.Registers
import Chip8.Config

/-!
# What a machine reports

The events of loading and running a program, how much each matters, and its wording.
-/

namespace Chip8

/-- How much an event matters. -/
inductive Severity
  | error
  | warning
  | info
  | debug
deriving DecidableEq, Repr

namespace Severity

/-- The place in the order from the gravest on. -/
def rank : Severity → Nat
  | .error => 1
  | .warning => 2
  | .info => 3
  | .debug => 4

/-- The word that stands in front of a line. -/
def label : Severity → String
  | .error => "ERROR"
  | .warning => "WARN"
  | .info => "INFO"
  | .debug => "DEBUG"

end Severity

/-- Something worth a line in the log. -/
inductive Event
  /-- A program of so many bytes stands in memory. -/
  | loaded (size : Nat)
  /-- An empty word was met, the last of a row of so many. -/
  | emptyWord (address : UInt16) (row : UInt8)
  /-- A word was met that is no instruction. -/
  | unknownWord (word address : UInt16)
  /-- A run begins. -/
  | started (clock : UInt32)
  /-- A run was given up in unused memory. -/
  | aborted
  /-- The registers at the end of a run that was given up. -/
  | registers (r : Registers)
  /-- A run is over. -/
  | finished (milliseconds cycles : Nat)
  /-- The registers that a front end leaves behind. -/
  | finalState (r : Registers)
deriving DecidableEq

namespace Event

/-- How much an event matters. -/
def severity : Event → Severity
  | .loaded _ | .started _ | .finished .. | .finalState _ => .info
  | .unknownWord .. => .warning
  | .aborted => .error
  | .emptyWord .. | .registers _ => .debug

/-- The wording of an event. -/
def text : Event → String
  | .loaded size => "Loaded " ++ toString size ++ " byte program at " ++ Hex.address programStart
  | .emptyWord address row =>
    "Empty instruction at " ++ Hex.address address ++ " (" ++ toString row.toNat ++ " in a row)"
  | .unknownWord word address =>
    "Unknown instruction " ++ Hex.padded 4 word.toNat ++ " at " ++ Hex.address address ++ ", skipping"
  | .started clock => "Starting VM at " ++ toString clock.toNat ++ " Hz"
  | .aborted => "Abort process because of " ++ toString emptyLimit.toNat ++ " empty instructions in a row"
  | .registers r => r.text
  | .finished milliseconds cycles =>
    "Program ran " ++ toString milliseconds ++ " milliseconds, executed " ++ toString cycles ++ " cycles"
  | .finalState r => "Final machine state:\n" ++ r.text

/-- The event as a line of a log, which shows how much it matters. -/
def line (e : Event) : String := e.severity.label ++ " " ++ e.text

/-- Whether a log that goes down to a severity shows the event. -/
def shownAt (e : Event) (least : Severity) : Bool := e.severity.rank ≤ least.rank

end Event
end Chip8
