import Chip8.Run

/-!
# Sessions

A session holds a machine that is run at most once. It is ready, then running, then over; it is running
from the moment the run begins until its end has been reported.
-/

namespace Chip8

/-- How far a session is. -/
inductive Stage
  | ready
  | running
  | over
deriving DecidableEq, Repr

/-- What came of a run. -/
structure Summary where
  cycles : Nat
  halted : Bool
deriving DecidableEq, Repr

/-- A machine that is run at most once. -/
structure Session where
  /-- Cycles in a second. -/
  clock : UInt32
  stage : Stage
  /-- The run; one that has not begun only holds the machine. -/
  run : Run

namespace Session

/-- A session for a machine; the clock has to tick. -/
def new (m : Machine) (clock : UInt32) (log : Array Event) : Except Error Session :=
  if clock = 0 then .error (.clockSpeed clock) else .ok ⟨clock, .ready, Run.start m clock 0 log⟩

/-- The machine of a session. -/
def machine (s : Session) : Machine := s.run.machine

/-- What was reported so far. -/
def log (s : Session) : List Event := s.run.log.toList

/-- Adds to what was reported. -/
def report (s : Session) (events : List Event) : Session := { s with run := { s.run with log := s.run.log ++ events } }

/-- Begins the run at a time, unless there was one. -/
def begin (s : Session) (now : Nat) : Except Error Session :=
  match s.stage with
  | .ready => .ok { s with stage := .running, run := Run.start s.machine s.clock now (s.run.log.push (.started s.clock)) }
  | _ => .error .alreadyStopped

/-- Milliseconds between two times. -/
def milliseconds (began now : Nat) : Nat := (now - began) / 1000000

/-- One small step. The end of a run is reported one step after it has come; a run that broke off reports nothing. -/
def step (s : Session) (now : Nat) : Session :=
  match s.stage, s.run.phase with
  | .running, .ended .broken => s
  | .running, .ended _ =>
    { s with stage := .over }.report [.finished (milliseconds s.run.began now) s.run.cycles]
  | .running, _ => { s with run := s.run.step now }
  | _, _ => s

/-- Whether the run is said to be on. -/
def isRunning (s : Session) : Bool := s.stage = .running

/-- Whether no step will change anything more. -/
def isFinished (s : Session) : Bool := s.stage = .over || s.run.phase = .ended .broken

/-- Whether a tone is to be heard. -/
def isSounding (s : Session) : Bool := s.machine.isSounding

/-- What came of the run, once it is finished. -/
def summary (s : Session) : Except Error Summary :=
  match s.run.phase with
  | .ended .broken => .error .brokenThread
  | phase => .ok ⟨s.run.cycles, phase = .ended .halted⟩

/-- Acts on the machine from outside. -/
def mapMachine (s : Session) (f : Machine → Machine) : Session := { s with run := s.run.mapMachine f }

/-- Acts on the keypad from outside. -/
def mapKeypad (s : Session) (f : Keypad → Keypad) : Session := s.mapMachine (·.mapKeypad f)

/-- Asks the machine to stop. -/
def stop (s : Session) : Session := s.mapMachine Machine.stop

end Session
end Chip8
