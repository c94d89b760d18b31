import Chip8.Proofs.WindowEvents

/-!
# Pixels do not mix

What is kept of one pixel of the window is its brightness and, once there is a surface, its four bytes (`Spot`). Each
happening does to it what can be said without the other pixels (`Front.spot_happen`), so two histories that look the
same at a pixel leave the same there (`Front.pixels_do_not_mix`).
-/

namespace Chip8.Window

/-- What happens to the picture: the machine shows something, that is drawn after some seconds, or a handler is
called. -/
inductive Scene
  | shows (display : Bitmap)
  | draws (dt : Float32)
  | calls (c : Call)

/-- What of it can be seen at one pixel. -/
inductive Glimpse
  | shows (lit : Bool)
  | draws (dt : Float32)
  | calls (c : Call)

def Scene.at (y : Fin 32) (x : Fin 64) : Scene → Glimpse
  | .shows display => .shows (display.pixel y x)
  | .draws dt => .draws dt
  | .calls c => .calls c

/-- One pixel: whether the machine shows it lit, its brightness, and its red, green, blue and opacity on the surface. -/
structure Spot where
  lit : Bool
  brightness : Float32
  bytes : Option (List UInt8)

/-- The bytes of a pixel of some brightness. -/
def green (b : Float32) : List UInt8 := [0, 0xFF, 0, opacity b]

namespace Spot

def draw (s : Spot) (dt : Float32) : Spot :=
  if s.bytes.isSome then
    let b := glow s.lit dt s.brightness
    { s with brightness := b, bytes := some (green b) }
  else s

/-- A new surface has nothing on it. -/
def call (s : Spot) (c : Call) : Spot :=
  match c.happening with
  | .resumed => if c.surfaces then { s with bytes := some [0, 0, 0, 0] } else s
  | .redraw dt => s.draw dt
  | _ => s

def happen (s : Spot) : Glimpse → Spot
  | .shows lit => { s with lit }
  | .draws dt => s.draw dt
  | .calls c => s.call c

end Spot

/-- The place of a pixel, row by row. -/
def place (y : Fin 32) (x : Fin 64) : Fin 2048 := ⟨64 * y.val + x.val, by omega⟩

def Phosphor.at (p : Phosphor) (y : Fin 32) (x : Fin 64) : Float32 := p.brightness[place y x]

/-- The place of each of the four bytes of a pixel. -/
def byteOf (y : Fin 32) (x : Fin 64) (c : Fin 4) : Fin 8192 := ⟨4 * (64 * y.val + x.val) + c.val, by omega⟩

/-- The four bytes of a pixel. -/
def bytesAt (frame : Vector UInt8 8192) (y : Fin 32) (x : Fin 64) : List UInt8 :=
  List.ofFn fun c : Fin 4 => frame[byteOf y x c]

namespace Front

def happen (f : Front) : Scene → Front
  | .shows display => { f with session := f.session.mapMachine (·.mapDisplay fun _ => display) }
  | .draws dt => f.drawDisplay dt
  | .calls c => f.handle c.devices c.happening

/-- The front end after a history. -/
def after (f : Front) (history : List Scene) : Front := history.foldl happen f

def spot (f : Front) (y : Fin 32) (x : Fin 64) : Spot where
  lit := f.session.machine.display.pixel y x
  brightness := f.phosphor.at y x
  bytes := f.surface.map fun s => bytesAt s.frame y x

end Front

/-! ## One drawing -/

theorem opacity_full : opacity full = 0xFF := by
  decide +kernel

theorem at_fade (p : Phosphor) (display : Bitmap) (dt : Float32) (y : Fin 32) (x : Fin 64) :
    (p.fade display dt).at y x = glow (display.pixel y x) dt (p.at y x) := by
  have row : (64 * y.val + x.val) / 64 = y.val := by omega
  have column : (64 * y.val + x.val) % 64 = x.val := by omega
  simp [Phosphor.at, Phosphor.fade, place, row, column]

theorem bytesAt_frame (p : Phosphor) (y : Fin 32) (x : Fin 64) : bytesAt p.frame y x = green (p.at y x) := by
  have pixel (c : Fin 4) : (byteOf y x c).val / 4 = (place y x).val := by
    simp only [byteOf, place]
    omega
  have channel (c : Fin 4) : (byteOf y x c).val % 4 = c.val := by
    simp only [byteOf]
    omega
  simp [bytesAt, Phosphor.frame, Phosphor.at, pixel, channel, green]

namespace Front

theorem drawDisplay_of_none {f : Front} (none : f.surface = none) (dt : Float32) : f.drawDisplay dt = f := by
  rw [drawDisplay, none]

theorem spot_drawDisplay (f : Front) (dt : Float32) (y : Fin 32) (x : Fin 64) :
    (f.drawDisplay dt).spot y x = (f.spot y x).draw dt := by
  cases surface : f.surface with
  | none => simp [drawDisplay, surface, Spot.draw, spot]
  | some s => simp [drawDisplay, surface, Spot.draw, spot, at_fade, bytesAt_frame]

theorem drawDisplay_of_some {f : Front} {s : Surface} (there : f.surface = some s) (dt : Float32) :
    (f.drawDisplay dt).surface = some { s with frame := (f.drawDisplay dt).phosphor.frame } := by
  simp [drawDisplay, there]

theorem brightness_drawDisplay {f : Front} {s : Surface} (there : f.surface = some s) (dt : Float32) (y : Fin 32)
    (x : Fin 64) :
    (f.drawDisplay dt).phosphor.at y x = glow (f.session.machine.display.pixel y x) dt (f.phosphor.at y x) := by
  rw [drawDisplay, there]
  exact at_fade f.phosphor _ dt y x

/-! ## One call -/

/-- A front end shows the same if it has the same display and brightness and the same bytes on its surface. -/
theorem spot_congr {f g : Front} (display : f.session.machine.display = g.session.machine.display)
    (phosphor : f.phosphor = g.phosphor) (frame : f.surface.map (·.frame) = g.surface.map (·.frame)) (y : Fin 32)
    (x : Fin 64) : f.spot y x = g.spot y x := by
  have bytes := congrArg (Option.map (bytesAt · y x)) frame
  rw [Option.map_map, Option.map_map] at bytes
  rw [spot, spot, display, phosphor]
  exact congrArg (Spot.mk _ _) bytes

theorem bytesAt_fresh (y : Fin 32) (x : Fin 64) : bytesAt Surface.fresh.frame y x = [0, 0, 0, 0] := by
  simp [bytesAt, Surface.fresh]

theorem spot_resume (f : Front) (devices : Devices) (y : Fin 32) (x : Fin 64) :
    (f.resume devices).1.spot y x = (f.spot y x).call ⟨devices, .resumed⟩ := by
  cases window : devices.window with
  | some reason => simp [resume, window, Spot.call, Call.surfaces, Call.opens]
  | none =>
    cases surface : devices.surface with
    | some reason =>
      rw [resume, window, surface]
      simp [Spot.call, Call.surfaces, surface, spot]
    | none =>
      rw [resume, window, surface]
      simp [Spot.call, Call.surfaces, Call.opens, window, surface, spot, askRedraw, bytesAt_fresh]

theorem spot_redraw (f : Front) (devices : Devices) (dt : Float32) (y : Fin 32) (x : Fin 64) :
    (f.redraw devices dt).1.spot y x = (f.spot y x).draw dt := by
  rw [← spot_drawDisplay, redraw]
  cases surface : (f.drawDisplay dt).surface with
  | none => exact spot_congr rfl rfl rfl y x
  | some s =>
    cases devices.surface with
    | some reason => rfl
    | none =>
      apply spot_congr
      case frame => simp [askRedraw, surface]
      all_goals rfl

theorem spot_respond (f : Front) (c : Call) (y : Fin 32) (x : Fin 64) :
    (f.respond c.devices c.happening).1.spot y x = (f.spot y x).call c := by
  obtain ⟨devices, happening⟩ := c
  cases happening with
  | resumed => exact f.spot_resume devices y x
  | redraw dt => exact f.spot_redraw devices dt y x
  | resized width height =>
    show (f.resize devices width height).1.spot y x = f.spot y x
    cases surface : f.surface with
    | none => rw [resize, surface]
    | some s =>
      cases fault : devices.sizes width height with
      | some reason => rw [resize, surface, fault]
      | none =>
        rw [resize, surface, fault]
        apply spot_congr
        case frame => simp [surface]
        all_goals rfl
  | key place down escape =>
    cases escape with
    | true => rfl
    | false =>
      show (f.turnKey place down).spot y x = f.spot y x
      rw [turnKey]
      cases keyAt? place <;> rfl
  | close => rfl
  | other => rfl

theorem spot_handle (f : Front) (c : Call) (y : Fin 32) (x : Fin 64) :
    (f.handle c.devices c.happening).spot y x = (f.spot y x).call c := by
  rw [handle_eq, ← spot_respond]
  exact spot_congr rfl rfl rfl y x

/-! ## Whole histories -/

theorem spot_happen (f : Front) (scene : Scene) (y : Fin 32) (x : Fin 64) :
    (f.happen scene).spot y x = (f.spot y x).happen (scene.at y x) := by
  cases scene with
  | shows display => rfl
  | draws dt => exact f.spot_drawDisplay dt y x
  | calls c => exact f.spot_handle c y x

theorem spot_after (f : Front) (history : List Scene) (y : Fin 32) (x : Fin 64) :
    (f.after history).spot y x = (history.map (·.at y x)).foldl Spot.happen (f.spot y x) := by
  induction history generalizing f with
  | nil => rfl
  | cons scene rest ih =>
    rw [List.map_cons, List.foldl_cons, ← spot_happen]
    exact ih (f.happen scene)

theorem after_congr {f g : Front} {y : Fin 32} {x : Fin 64} (start : f.spot y x = g.spot y x)
    {history other : List Scene} (same : history.map (·.at y x) = other.map (·.at y x)) :
    (f.after history).spot y x = (g.after other).spot y x := by
  rw [spot_after, spot_after, start, same]

/-- Whatever is drawn and whichever handlers are called: two histories that look the same at a pixel, with the same
times between the drawings, leave the same brightness there and the same four bytes. A drawing on a surface writes all
pixels, from the brightness that each then has; a lit one has full brightness and is opaque. Without a surface it does
nothing. -/
theorem pixels_do_not_mix :
    (∀ (f g : Front) (y : Fin 32) (x : Fin 64) (history other : List Scene), f.spot y x = g.spot y x →
      history.map (·.at y x) = other.map (·.at y x) → (f.after history).spot y x = (g.after other).spot y x) ∧
    ∀ (f : Front) (dt : Float32),
      (f.surface = none → f.drawDisplay dt = f) ∧
      ∀ s, f.surface = some s → ∃ t, (f.drawDisplay dt).surface = some t ∧ ∀ (y : Fin 32) (x : Fin 64),
        let lit := f.session.machine.display.pixel y x
        let brightness := (f.drawDisplay dt).phosphor.at y x
        brightness = glow lit dt (f.phosphor.at y x) ∧ bytesAt t.frame y x = [0, 0xFF, 0, opacity brightness] ∧
          (lit = true → brightness = 1.0 ∧ bytesAt t.frame y x = [0, 0xFF, 0, 0xFF]) := by
  refine ⟨fun f g y x history other start same => after_congr start same, fun f dt => ⟨?_, ?_⟩⟩
  · exact fun none => drawDisplay_of_none none dt
  · intro s there
    refine ⟨_, drawDisplay_of_some there dt, fun y x => ?_⟩
    intro lit brightness
    have faded : brightness = glow lit dt (f.phosphor.at y x) := brightness_drawDisplay there dt y x
    have written : bytesAt (f.drawDisplay dt).phosphor.frame y x = [0, 0xFF, 0, opacity brightness] :=
      bytesAt_frame _ y x
    refine ⟨faded, written, fun isLit => ?_⟩
    have isFull : brightness = full := by rw [faded, isLit, glow, if_pos rfl]
    rw [isFull, opacity_full] at written
    exact ⟨isFull, written⟩

/-- A picture is shown on a new surface for some time and then goes. -/
def flash (display : Bitmap) : List Scene :=
  [.calls ⟨.working, .resumed⟩, .shows display, .draws 0.5, .shows .blank, .calls ⟨.working, .redraw 0.25⟩]

def corner : Bitmap := (Bitmap.blank.draw [0x80] 0 0).1

def corners : Bitmap := (corner.draw [0x01] 56 0).1

theorem corner_flashes_alone :
    let f := Front.begun loudRom .default [] 0
    corner.pixel 0 63 = false ∧ corners.pixel 0 63 = true ∧
      (f.after (flash corner)).spot 0 0 = (f.after (flash corners)).spot 0 0 ∧
      f.drawDisplay 0.5 = f ∧
      ∃ t, ((f.after ((flash corners).take 2)).drawDisplay 0.5).surface = some t ∧
        bytesAt t.frame 0 63 = [0, 0xFF, 0, 0xFF] := by
  intro f
  obtain ⟨alone, drawn⟩ := pixels_do_not_mix
  have same : (flash corner).map (·.at 0 0) = (flash corners).map (·.at 0 0) := by
    have lit : corner.pixel 0 0 = corners.pixel 0 0 := by decide +kernel
    simp [flash, Scene.at, lit]
  obtain ⟨t, there, written⟩ := (drawn (f.after ((flash corners).take 2)) 0.5).2 .fresh rfl
  have right : corners.pixel 0 63 = true := by decide +kernel
  obtain ⟨-, -, solid⟩ := written 0 63
  exact ⟨by decide +kernel, right, alone f f 0 0 _ _ rfl same, (drawn f 0.5).1 rfl, t, there, (solid right).2⟩

end Front
end Chip8.Window
