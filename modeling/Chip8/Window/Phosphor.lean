import Chip8.Bitmap

/-!
# Phosphor

A pixel that is switched off does not go dark at once. Each pixel has a brightness, which is full while the
pixel is lit and then fades with time; on a surface it is the opacity of a green pixel.
-/

namespace Chip8.Window

/-- Number of pixels. -/
def pixelCount : Nat := 2048

/-- What a brightness loses in a second. -/
def fadeRate : Float32 := 10.0

/-- Full brightness. -/
def full : Float32 := 1.0

/-- A number, or zero if it is not above zero. -/
def notBelowZero (b : Float32) : Float32 := if 0.0 < b then b else 0.0

/-- The brightness of a pixel some time after another. -/
def glow (lit : Bool) (dt before : Float32) : Float32 := if lit then full else notBelowZero (before - fadeRate * dt)

/-- The opacity of a brightness. -/
def opacity (b : Float32) : UInt8 := (b * 255.0).toUInt8

/-- The brightness of every pixel, row by row. -/
structure Phosphor where
  brightness : Vector Float32 2048

namespace Phosphor

/-- All pixels are dark. -/
def dark : Phosphor := ⟨Vector.replicate 2048 0.0⟩

/-- Lets some time go by, at the end of which a display is shown. -/
def fade (p : Phosphor) (display : Bitmap) (dt : Float32) : Phosphor :=
  ⟨Vector.ofFn fun i => glow (display.pixel (i.val / 64) (i.val % 64)) dt p.brightness[i]⟩

/-- Red, green, blue and opacity of every pixel. -/
def frame (p : Phosphor) : Vector UInt8 8192 :=
  Vector.ofFn fun i =>
    match i.val % 4 with
    | 1 => 0xFF
    | 3 => opacity (p.brightness[(⟨i.val / 4, by omega⟩ : Fin 2048)])
    | _ => 0

end Phosphor
end Chip8.Window
