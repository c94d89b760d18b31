import Chip8.Session.Launch
import Chip8.Terminal.Screen

/-!
# The terminal front end

A session with the keys of a terminal. A terminal does not tell when a key is let go, so a key is taken for
released when it has not been pressed for a while.

Times are in nanoseconds.
-/

namespace Chip8.Terminal

/-- A key of the keyboard. -/
inductive KeyCode
  | char (c : Char)
  | escape
  | other
deriving DecidableEq, Repr

/-- What happened to a key. -/
inductive KeyKind
  | press
  | release
  | again
deriving DecidableEq, Repr

/-- A key of the keyboard with what happened to it, and whether the control key was down. -/
structure KeyEvent where
  code : KeyCode
  kind : KeyKind
  control : Bool
deriving DecidableEq, Repr

/-- The characters that stand for the keys 0 to F. -/
def keyChars : List Char := ['x', '1', '2', '3', 'q', 'w', 'e', 'a', 's', 'd', 'z', 'c', '4', 'r', 'f', 'v']

/-- The key that a character stands for. -/
def keyOf? (code : KeyCode) : Option Digit := Digit.all.find? fun k => keyChars[k.val]?.map .char = some code

/-- How long a key counts as held after it was pressed. -/
def holdTime : Nat := 50000000

/-- The state of the front end. -/
structure Front where
  session : Session
  /-- Whether the session has not been taken down. -/
  attached : Bool
  /-- Whether the user wants to leave. -/
  quitting : Bool
  /-- When each key was pressed last, as long as it counts as held. -/
  pressed : Vector (Option Nat) 16

namespace Front

/-- Loads a program and begins to run it. -/
def new (rom : Rom) (config : Config) (random : List UInt8) (now : Nat) : Except Aborted Front :=
  (Session.launch rom config random now).map fun session => ⟨session, true, false, Vector.replicate 16 none⟩

/-- The keypad of the machine. -/
def keypad (f : Front) : Keypad := f.session.machine.keypad

/-- The keys that count as held because of a press. -/
def timed (f : Front) : List Digit := Digit.all.filter fun k => (f.pressed.get k).isSome

/-- Notes when a key was pressed, or that it was let go. -/
def note (f : Front) (k : Digit) (time : Option Nat) : Front :=
  { f with pressed := f.pressed.set k.val time k.inside }

/-- Whether an event asks to leave: the control key with C, or a press of Escape. -/
def asksToQuit (e : KeyEvent) : Bool :=
  (e.code = .char 'c' && e.control) || (e.code = .escape && e.kind = .press)

/-- Acts on a key of the keyboard. -/
def handle (f : Front) (e : KeyEvent) (now : Nat) : Front :=
  if asksToQuit e then { f with quitting := true }
  else match keyOf? e.code with
    | some k => { f.note k (some now) with session := f.session.mapKeypad (·.press k.toByte) }
    | none => f

/-- Whether a key has not been pressed for too long. -/
def hasExpired (f : Front) (now : Nat) (k : Digit) : Bool := (f.pressed.get k).any fun t => holdTime < now - t

/-- Lets one key go if it has not been pressed for too long. -/
def expire (now : Nat) (f : Front) (k : Digit) : Front :=
  if f.hasExpired now k then { f.note k none with session := f.session.mapKeypad (·.release k.toByte) } else f

/-- Lets every key go that has not been pressed for too long. -/
def checkTimes (f : Front) (now : Nat) : Front := Digit.all.foldl (expire now) f

/-- Whether the run is said to be on. -/
def isRunning (f : Front) : Bool := f.attached && f.session.isRunning

/-- Whether a tone is to be heard. -/
def isSounding (f : Front) : Bool := f.attached && f.session.isSounding

/-- What the screen shows. -/
def view (f : Front) : View := ⟨f.session.machine.display, f.keypad, f.isRunning, f.isSounding⟩

/-- Takes down a session that was brought to its end. -/
def detach (f : Front) : Except Failure Front :=
  if f.attached then (Attempt.endRun.guard f.session.summary).map fun _ => { f with attached := false } else .ok f

end Front
end Chip8.Terminal
