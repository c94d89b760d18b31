import Chip8.Session.Launch
import Chip8.Tone
import Chip8.Window.Phosphor

/-!
# The windowed front end

A session with a window, a surface to draw on and a tone. Devices can fail at any time; a handler that fails
may have done part of its work, and makes the front end leave.
-/

namespace Chip8.Window

/-- Why each device fails, if it does. -/
structure Devices where
  audio : Option String
  window : Option String
  surface : Option String
  /-- Why the surface cannot take a width and a height, if it cannot. -/
  sizes : Nat → Nat → Option String

/-- All devices work. -/
def Devices.working : Devices := ⟨none, none, none, fun _ _ => none⟩

/-- Something that happens to the front end. -/
inductive Happening
  /-- The front end may make its window. -/
  | resumed
  /-- The window is to be closed. -/
  | close
  /-- The window has another size. -/
  | resized (width height : Nat)
  /-- The window is to be drawn, some seconds after it was drawn last. -/
  | redraw (dt : Float32)
  /-- A key in a place of the keyboard went down or up; it may mean Escape. -/
  | key (place : String) (down escape : Bool)
  /-- Something that does not matter. -/
  | other

/-- The places on the keyboard that stand for the keys 0 to F. -/
def keyPlaces : List String := [
  "KeyX", "Digit1", "Digit2", "Digit3", "KeyQ", "KeyW", "KeyE", "KeyA",
  "KeyS", "KeyD", "KeyZ", "KeyC", "Digit4", "KeyR", "KeyF", "KeyV"]

/-- The key that a place stands for. -/
def keyAt? (place : String) : Option Digit := Digit.all.find? fun k => keyPlaces[k.val]? = some place

/-- The title of the window. -/
def title : String := "chip8-vm"

/-- The least width and height of the window. -/
def leastSize : Nat × Nat := (Bitmap.width, Bitmap.height)

/-- The width and height that the window begins with. -/
def firstSize : Nat × Nat := (10 * Bitmap.width, 10 * Bitmap.height)

/-- A window. -/
structure Pane where
  /-- How often it was asked to be drawn. -/
  redraws : Nat
deriving DecidableEq, Repr

/-- The surface of a window. -/
structure Surface where
  /-- Width and height of the window that it fills. -/
  size : Nat × Nat
  /-- How often it was brought to the window. -/
  renders : Nat
  /-- Red, green, blue and opacity of every pixel of the display. -/
  frame : Vector UInt8 8192

/-- A surface that nothing was drawn on. -/
def Surface.fresh : Surface := ⟨firstSize, 0, Vector.replicate 8192 0⟩

/-- The state of the front end. -/
structure Front where
  session : Session
  /-- Whether the session has not been taken down. -/
  attached : Bool
  player : Tone.Player
  pane : Option Pane
  surface : Option Surface
  phosphor : Phosphor
  /-- Whether the front end is to be left. -/
  exiting : Bool
  /-- What failed last. -/
  failure : Option Failure

namespace Front

/-- Opens the sound output, then loads a program and begins to run it. -/
def new (devices : Devices) (rom : Rom) (config : Config) (random : List UInt8) (now : Nat) : Except Aborted Front :=
  match devices.audio with
  | some reason => .error ⟨⟨.openAudio, [reason]⟩, []⟩
  | none => (Session.launch rom config random now).map fun session =>
    ⟨session, true, .start, none, none, .dark, false, none⟩

/-- Asks for one more drawing of the window, if there is one. -/
def askRedraw (f : Front) : Front := { f with pane := f.pane.map fun p => ⟨p.redraws + 1⟩ }

/-- Brings the display to the surface, if there is one, after some seconds. -/
def drawDisplay (f : Front) (dt : Float32) : Front :=
  match f.surface with
  | none => f
  | some s =>
    let phosphor := f.phosphor.fade f.session.machine.display dt
    { f with phosphor := phosphor, surface := some { s with frame := phosphor.frame } }

/-- Makes a new window, then its surface. -/
def resume (f : Front) (devices : Devices) : Front × Option Failure :=
  match devices.window, devices.surface with
  | some reason, _ => (f, some ⟨.makeWindow, [reason]⟩)
  | none, some reason => ({ f with pane := some ⟨0⟩ }, some ⟨.makeSurface, [reason]⟩)
  | none, none => ({ f with pane := some ⟨0⟩, surface := some .fresh }.askRedraw, none)

/-- Gives the surface another size. -/
def resize (f : Front) (devices : Devices) (width height : Nat) : Front × Option Failure :=
  match f.surface, devices.sizes width height with
  | none, _ => (f, none)
  | some _, some reason => (f, some ⟨.resizeSurface, [reason]⟩)
  | some s, none => ({ f with surface := some { s with size := (width, height) } }, none)

/-- Draws the window and asks for the next drawing. -/
def redraw (f : Front) (devices : Devices) (dt : Float32) : Front × Option Failure :=
  let f := f.drawDisplay dt
  match f.surface, devices.surface with
  | none, _ => (f.askRedraw, none)
  | some _, some reason => (f, some ⟨.render, [reason]⟩)
  | some s, none => ({ f with surface := some { s with renders := s.renders + 1 } }.askRedraw, none)

/-- Presses or releases the key in a place. -/
def turnKey (f : Front) (place : String) (down : Bool) : Front :=
  match keyAt? place with
  | none => f
  | some k => { f with session := f.session.mapKeypad (·.put k down) }

/-- What a handler does, and how it fails if it does. -/
def respond (f : Front) (devices : Devices) : Happening → Front × Option Failure
  | .resumed => f.resume devices
  | .close => ({ f with exiting := true }, none)
  | .resized width height => f.resize devices width height
  | .redraw dt => f.redraw devices dt
  | .key _ _ true => ({ f with exiting := true }, none)
  | .key place down false => (f.turnKey place down, none)
  | .other => (f, none)

/-- Handles what happens; a failure is kept and makes the front end leave. -/
def handle (f : Front) (devices : Devices) (h : Happening) : Front :=
  match f.respond devices h with
  | (f, none) => f
  | (f, some failure) => { f with exiting := true, failure := some failure }

/-- The keypad of the machine. -/
def keypad (f : Front) : Keypad := f.session.machine.keypad

/-- One step of the player. -/
def stepPlayer (f : Front) : Front := { f with player := f.player.step f.session.isRunning f.session.isSounding }

/-- Takes down a session that was brought to its end. A machine that halted leaves its registers in the log. -/
def detach (f : Front) : Except Failure Front :=
  if f.attached then
    match f.session.summary with
    | .error e => .error (.ofError .endRun e)
    | .ok summary =>
      let final := if summary.halted then [Event.finalState f.session.machine.registers] else []
      .ok { f with attached := false, session := f.session.report final }
  else .ok f

end Front
end Chip8.Window
