import Chip8.CommandLine.Exit
import Chip8.Session.Paced
import Chip8.Terminal.Front

/-!
# The terminal front end in paced time

The front end driven without waiting for real time: frame after frame while a user types. The whole of it
goes from its arguments to its exit code.
-/

namespace Chip8.Terminal

/-- The time between two frames when nothing is typed, in nanoseconds. -/
def frameTime : Nat := 16000000

/-- The time that drawing a frame takes, in nanoseconds. -/
def drawTime : Nat := 1000000

/-- The event of a typed character. Control characters are letters or digits with the control key, except for those
that have a key of their own. -/
def KeyEvent.ofTyped (c : Char) : KeyEvent :=
  let n := c.toNat
  if n = 27 then ⟨.escape, .press, false⟩
  else if n = 9 ∨ n = 13 ∨ n = 127 then ⟨.other, .press, false⟩
  else if n = 0 then ⟨.char ' ', .press, true⟩
  else if n ≤ 26 then ⟨.char (Char.ofNat (n + 96)), .press, true⟩
  else if n < 32 then ⟨.char (Char.ofNat (n + 24)), .press, true⟩
  else ⟨.char c, .press, false⟩

/-- Whether a character ends the sequence of a special key. -/
def endsSequence (c : Char) : Bool := 0x40 ≤ c.toNat && c.toNat ≤ 0x7E

mutual

/-- The events of characters that are typed at once. Behind the escape character comes what is typed with the alternate
key, or the sequence of a special key. -/
def KeyEvent.ofText : List Char → List KeyEvent
  | [] => []
  | '\x1b' :: '\x1b' :: rest => KeyEvent.ofTyped '\x1b' :: KeyEvent.ofText rest
  | '\x1b' :: '[' :: rest => KeyEvent.ofSequence rest
  | '\x1b' :: 'O' :: _ :: rest => ⟨.other, .press, false⟩ :: KeyEvent.ofText rest
  | '\x1b' :: c :: rest => KeyEvent.ofTyped c :: KeyEvent.ofText rest
  | c :: rest => KeyEvent.ofTyped c :: KeyEvent.ofText rest

/-- The events of characters that begin in the sequence of a special key. -/
def KeyEvent.ofSequence : List Char → List KeyEvent
  | [] => []
  | c :: rest => if endsSequence c then ⟨.other, .press, false⟩ :: KeyEvent.ofText rest else KeyEvent.ofSequence rest

end

/-- What a user does. -/
structure User where
  /-- What is typed once the screen has been drawn. -/
  typed : List KeyEvent
  /-- A text that the user waits for in the log. -/
  awaited : Option String
  /-- What is typed at the end. -/
  last : KeyEvent

/-- The log as it is shown while the front end runs. -/
def shown (log : List Event) : List Event := log.filter (·.shownAt .warning)

namespace Front

/-- Lets the machine run for some nanoseconds from a time on, then lets keys go. -/
def elapse (f : Front) (now nanoseconds : Nat) : Front :=
  { f with session := f.session.elapse now nanoseconds }.checkTimes (now + nanoseconds)

/-- Frames in which one event after another is handled: the state after them, and the time. -/
def typeAll (f : Front) (now : Nat) : List KeyEvent → Front × Nat
  | [] => (f, now)
  | e :: rest =>
    if f.quitting then (f, now)
    else ((f.elapse now drawTime).handle e (now + drawTime)).typeAll (now + drawTime) rest

/-- Whether the log shows a line with a text. -/
def shows (f : Front) (text : String) : Bool := (shown f.session.log).any fun e => e.line.contains text

/-- Frames without input until the log shows a text, at most so many: the state after them, and the time. -/
def watch (text : String) : Nat → Front → Nat → Front × Nat
  | 0, f, now => (f, now)
  | n + 1, f, now =>
    if f.shows text then (f, now) else watch text n (f.elapse now frameTime) (now + frameTime)

/-- The frames in which a user comes and goes: the state after them, and the time. -/
def visit (f : Front) (user : User) : Front × Nat :=
  let (f, now) := (f.elapse 0 frameTime).typeAll frameTime user.typed
  let (f, now) := match user.awaited with
    | some text => f.watch text 1000 now
    | none => (f, now)
  f.typeAll now [user.last]

/-- Asks the machine to stop and takes the session down. -/
def shutdown (now : Nat) (f : Front) : Except Failure Front :=
  if f.attached then { f with session := f.session.stop.finish now }.detach else .ok f

end Front

/-- The front end from its arguments to its exit code, while a user comes and goes. -/
def play (files : Files) (arguments : List String) (random : List UInt8) (user : User) : CommandLine.Exit :=
  let outcome : Except CommandLine.Exit CommandLine.Exit := do
    let (rom, config) ← CommandLine.prepare files arguments
    let f ← (Front.new rom config random 0).mapError CommandLine.Exit.ofAborted
    let (f, now) := f.visit user
    let down ← (f.shutdown now).mapError (CommandLine.Exit.ofFailure f.session.log)
    return .ofResult down.session.log none
  match outcome with
  | .ok e | .error e => { e with log := shown e.log }

end Chip8.Terminal
