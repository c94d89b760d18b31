import Chip8.Bitmap
import Chip8.Keypad
import Chip8.Terminal.Canvas

/-!
# The screen

How a machine looks in a terminal: the display at the left, which takes what width there is, and at the
right whether the machine runs, whether a tone is to be heard and which keys are held.
-/

namespace Chip8.Terminal

/-- What a screen shows. -/
structure View where
  display : Bitmap
  keypad : Keypad
  running : Bool
  sounding : Bool

/-- The width of the boxes at the right. -/
def sideWidth : Nat := 17

/-- The least width that the screen fits into. -/
def minWidth : Nat := Bitmap.width + 2 + sideWidth

/-- The least height that the screen fits into. -/
def minHeight : Nat := Bitmap.height + 2

/-- What a screen says that is too small. -/
def tooSmallText : String :=
  "Terminal is too small (" ++ toString minWidth ++ "x" ++ toString minHeight ++ " min)"

/-- The box in the middle of a screen that is too small. -/
def tooSmallArea (width height : Nat) : Area := ⟨(height - 3 + 1) / 2, (width - 45 + 1) / 2, 45, 3⟩

/-- A screen that is too small. -/
def tooSmall (width height : Nat) : Canvas :=
  let a := tooSmallArea width height
  (Canvas.blank.box a (.on .red) "").lines a 0 [cells (.on .red) tooSmallText]

/-- The box of the display. -/
def displayArea (width height : Nat) : Area := ⟨0, 0, width - sideWidth, height⟩

/-- The box of the run state. -/
def stateArea (width : Nat) : Area := ⟨0, width - sideWidth, sideWidth, 3⟩

/-- The box of the tone. -/
def soundArea (width : Nat) : Area := ⟨3, width - sideWidth, sideWidth, 3⟩

/-- The box of the keypad. -/
def keypadArea (width : Nat) : Area := ⟨6, width - sideWidth, sideWidth, 6⟩

/-- The keys as they lie on the keypad. -/
def keyRows : List (List Digit) := [[0x1, 0x2, 0x3, 0xC], [0x4, 0x5, 0x6, 0xD], [0x7, 0x8, 0x9, 0xE], [0xA, 0x0, 0xB, 0xF]]

namespace View

/-- A row of pixels. -/
def pixelRow (v : View) (y : Nat) : List Cell :=
  (List.range Bitmap.width).map fun x => ⟨if v.display.pixel y x then '█' else ' ', .on .green⟩

/-- All rows of pixels. -/
def pixelRows (v : View) : List (List Cell) := (List.range Bitmap.height).map v.pixelRow

/-- Whether the machine runs. -/
def stateText (v : View) : List Cell :=
  if v.running then cells (.on .green) "RUNNING" else cells (.on .red) "STOPPED"

/-- Whether a tone is to be heard. -/
def soundText (v : View) : List Cell :=
  if v.sounding then cells (.on .yellow) "BEEP" else cells (.on .darkGray) "-"

/-- A key, which stands out while it is held. -/
def keyCell (v : View) (k : Digit) : Cell := ⟨k.char, if v.keypad.holds k then ⟨.black, .white⟩ else .plain⟩

/-- A row of keys with blanks between them. -/
def keyRow (v : View) (ks : List Digit) : List Cell := (ks.map v.keyCell).intersperse ⟨' ', .plain⟩

/-- A screen of a given size. -/
def draw (v : View) (width height : Nat) : Canvas :=
  if width < minWidth ∨ height < minHeight then tooSmall width height
  else
    let display := displayArea width height
    let c := (Canvas.blank.box display .plain " Display ").lines display 0 v.pixelRows
    let c := (c.box (stateArea width) .plain " State ").lines (stateArea width) 0 [v.stateText]
    let c := (c.box (soundArea width) .plain " Sound ").lines (soundArea width) 0 [v.soundText]
    (c.box (keypadArea width) .plain " Keypad ").lines (keypadArea width) 0 (keyRows.map v.keyRow)

end View
end Chip8.Terminal
