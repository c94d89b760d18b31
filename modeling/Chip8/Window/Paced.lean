import Chip8.CommandLine.Exit
import Chip8.Session.Paced
import Chip8.Window.Front

/-!
# The windowed front end in paced time

The front end driven without waiting for real time, and the whole of it from its arguments to its exit code.
-/

namespace Chip8.Window

namespace Front

/-- One step of the run at a time or later, then one of the player. -/
def pacedStep (now : Nat) (f : Front) : Front := { f with session := f.session.pacedStep now }.stepPlayer

/-- Steps until a condition holds, at most so many. -/
def stepUntil (now : Nat) (done : Front → Bool) : Nat → Front → Front
  | 0, f => f
  | n + 1, f => if done f then f else stepUntil now done n (f.pacedStep now)

/-- How long a tone is listened to, in nanoseconds. -/
def listeningTime : Nat := 100000000

/-- Steps until a tone is played or not, and listens for a while: the state after that, and the time. -/
def awaitTone (now : Nat) (f : Front) (playing : Bool) : Front × Nat :=
  let f := f.stepUntil now (·.player.playing == playing) Session.patience
  ({ f with session := f.session.elapse now listeningTime }, f.session.timeAfter now + listeningTime)

/-- Steps until the run is over. -/
def finish (now : Nat) (f : Front) : Front := f.stepUntil now (·.session.isFinished) Session.patience

/-- Asks the machine to stop and takes the session down. -/
def shutdown (now : Nat) (f : Front) : Except Failure Front :=
  if f.attached then
    ({ f with session := f.session.stop }.finish now).stepPlayer.stepPlayer.stepPlayer.stepPlayer.detach
  else .ok f

/-- Handles what happens, in turn, until the front end is to be left. -/
def handleAll (devices : Devices) (f : Front) : List Happening → Front
  | [] => f
  | h :: rest => if f.exiting then f else (f.handle devices h).handleAll devices rest

end Front

/-- The front end from its arguments to its exit code, while some things happen to its window. -/
def play (devices : Devices) (files : Files) (arguments : List String) (random : List UInt8)
    (happenings : List Happening) : CommandLine.Exit :=
  let outcome : Except CommandLine.Exit CommandLine.Exit := do
    let (rom, config) ← CommandLine.prepare files arguments
    let f ← (Front.new devices rom config random 0).mapError CommandLine.Exit.ofAborted
    let f := f.handleAll devices (.resumed :: happenings)
    let down ← (f.shutdown 0).mapError (CommandLine.Exit.ofFailure f.session.log)
    return .ofResult down.session.log down.failure
  match outcome with
  | .ok e | .error e => e.shownAt .info

end Chip8.Window
