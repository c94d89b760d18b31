import Chip8.Session

/-!
# Paced sessions

A session driven by a clock of its own, which moves on with every reading to the time at which the next cycle
or the next tick of the timers is due. Nothing waits for real time, and a bound on the number of steps takes
the place of patience.

Time also passes while a run waits for a key and reads no clock. So each function is told the time at which it
begins, and no reading shows less.
-/

namespace Chip8.Session

/-- The time that passes at least between two readings, in nanoseconds. -/
def leastGap : Nat := 500

/-- What the clock shows when it is read next, at a time or later. -/
def nextReading (now : Nat) (s : Session) : Nat :=
  max now (max (s.run.reading + leastGap) (min (s.run.lastCycle + s.run.period) (s.run.lastTick + tickPeriod)))

/-- One small step in paced time. -/
def pacedStep (now : Nat) (s : Session) : Session := s.step (s.nextReading now)

/-- Steps until a condition holds, at most so many. -/
def stepUntil (now : Nat) (done : Session → Bool) : Nat → Session → Session
  | 0, s => s
  | n + 1, s => if done s then s else stepUntil now done n (s.pacedStep now)

/-- The steps after which a condition is given up. -/
def patience : Nat := 30000000

/-- Steps until a condition holds, for many seconds at most. -/
def awaitThat (now : Nat) (done : Session → Bool) (s : Session) : Session := s.stepUntil now done patience

/-- The time when a session has gone on from a time. -/
def timeAfter (now : Nat) (s : Session) : Nat := max now s.run.reading

/-- Whether the run waits for a key. -/
def isWaiting (s : Session) : Bool := s.run.phase = .cycling && s.machine.wouldWait

/-- Whether the clock is read next, and nothing is due before a time. -/
def isIdleUntil (now time : Nat) (s : Session) : Bool := s.run.phase = .polling && time ≤ s.nextReading now

/-- Steps until a time, less if the run ends or waits for a key. -/
def advance (now time : Nat) (s : Session) : Session :=
  (s.awaitThat now fun t => t.isIdleUntil now time || t.isFinished || t.isWaiting).step time

/-- Steps for so many nanoseconds, less if the run ends or waits for a key. -/
def elapse (now nanoseconds : Nat) (s : Session) : Session :=
  s.advance (s.timeAfter now) (s.timeAfter now + nanoseconds)

/-- Steps until the run is over. -/
def finish (now : Nat) (s : Session) : Session := s.awaitThat now isFinished

end Chip8.Session
