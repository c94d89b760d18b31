import Chip8.Machine.Cycle
import Chip8.Period

/-!
# Runs

A run drives a machine by polling a clock. Each round first looks for the wish to stop, then reads the
clock; a cycle is due when a period of the processor has gone by since the last one, a tick of the timers
when a period of theirs has. The round is taken in small steps, so that keys and the wish to stop can change
between any two of them, and a cycle that waits for a key is tried again and again.

Times are in nanoseconds.
-/

namespace Chip8

/-- How a run ended. -/
inductive Ending
  /-- It saw the wish to stop. -/
  | stopped
  /-- The machine halted. -/
  | halted
  /-- The machine could not count on. -/
  | broken
deriving DecidableEq, Repr

/-- Where in its round a run is. -/
inductive Phase
  /-- It is about to look for the wish to stop and to read the clock. -/
  | polling
  /-- A cycle is due. -/
  | cycling
  /-- The cycle is behind it, and a tick may be due. -/
  | ticking
  /-- The run is over. -/
  | ended (how : Ending)
deriving DecidableEq, Repr

/-- A run in progress. -/
structure Run where
  machine : Machine
  /-- The time between two cycles. -/
  period : Nat
  /-- When the run began. -/
  began : Nat
  /-- What the clock showed when it was last read. -/
  reading : Nat
  /-- When the last cycle was due. -/
  lastCycle : Nat
  /-- When the last tick was due. -/
  lastTick : Nat
  /-- The number of cycles. -/
  cycles : Nat
  phase : Phase
  /-- What was reported so far. -/
  log : Array Event

namespace Run

/-- A run that begins at a time. -/
def start (m : Machine) (clock : UInt32) (now : Nat) (log : Array Event) : Run where
  machine := m
  period := cyclePeriod clock
  began := now
  reading := now
  lastCycle := now
  lastTick := now
  cycles := 0
  phase := .polling
  log := log

/-- Whether a cycle is due at a time. -/
def cycleDue (r : Run) (now : Nat) : Bool := r.period ≤ now - r.lastCycle

/-- Whether a tick is due at the last reading. -/
def tickDue (r : Run) : Bool := tickPeriod ≤ r.reading - r.lastTick

/-- Looks for the wish to stop; if there is none, reads the clock. -/
def poll (r : Run) (now : Nat) : Run :=
  if r.machine.stopping then { r with phase := .ended .stopped }
  else { r with reading := now, phase := if r.cycleDue now then .cycling else .ticking }

/-- Takes over a machine after a cycle that was due at the last reading. -/
def cycled (r : Run) (m : Machine) (events : List Event) (phase : Phase) : Run :=
  { r with machine := m, lastCycle := r.reading, cycles := r.cycles + 1, phase := phase, log := r.log ++ events }

/-- Tries a cycle. -/
def cycle (r : Run) : Run :=
  let c := r.machine.cycle
  match c.outcome with
  | .done => r.cycled c.machine c.note.toList .ticking
  | .halted => r.cycled c.machine (c.note.toList ++ [.aborted, .registers c.machine.registers]) (.ended .halted)
  | .waiting => r
  | .overflow => r.cycled c.machine c.note.toList (.ended .broken)

/-- Counts the timers down if that is due. -/
def tick (r : Run) : Run :=
  if r.tickDue then { r with machine := r.machine.tick, lastTick := r.reading, phase := .polling }
  else { r with phase := .polling }

/-- One small step; the time is what the clock shows, should the step read it. -/
def step (r : Run) (now : Nat) : Run :=
  match r.phase with
  | .polling => r.poll now
  | .cycling => r.cycle
  | .ticking => r.tick
  | .ended _ => r

/-- Acts on the machine from outside. -/
def mapMachine (r : Run) (f : Machine → Machine) : Run := { r with machine := f r.machine }

end Run
end Chip8
