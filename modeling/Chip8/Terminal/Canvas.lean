/-!
# Canvases

What the cells of a terminal show, with the boxes and texts that a screen is made of. A canvas says for every row
and column what stands there, so that drawing puts one picture over another.
-/

namespace Chip8.Terminal

/-- The colours in use; the first leaves the choice to the terminal. -/
inductive Colour
  | reset
  | black
  | red
  | green
  | yellow
  | darkGray
  | white
deriving DecidableEq, Repr

/-- The colours of a character and of what is behind it. -/
structure Style where
  foreground : Colour
  background : Colour
deriving DecidableEq, Repr

/-- No colour is chosen. -/
def Style.plain : Style := ⟨.reset, .reset⟩

/-- Only the colour of the character is chosen. -/
def Style.on (c : Colour) : Style := ⟨c, .reset⟩

/-- What one cell shows. -/
structure Cell where
  char : Char
  style : Style
deriving DecidableEq, Repr

/-- The cell at each row and column. -/
structure Canvas where
  cellAt : Nat → Nat → Cell

/-- A rectangle of cells. -/
structure Area where
  top : Nat
  left : Nat
  width : Nat
  height : Nat
deriving DecidableEq, Repr

/-- Cells of one style for the characters of a text. -/
def cells (style : Style) (text : String) : List Cell := text.toList.map (⟨·, style⟩)

namespace Area

/-- Whether a cell lies in an area. -/
def contains (a : Area) (row column : Nat) : Bool :=
  a.top ≤ row && row < a.top + a.height && a.left ≤ column && column < a.left + a.width

/-- The character of a border around an area, or the blank inside it. -/
def borderChar (a : Area) (row column : Nat) : Char :=
  let atLeft := column = a.left
  let atRight := column + 1 = a.left + a.width
  if row = a.top then if atLeft then '┌' else if atRight then '┐' else '─'
  else if row + 1 = a.top + a.height then if atLeft then '└' else if atRight then '┘' else '─'
  else if atLeft ∨ atRight then '│' else ' '

end Area

namespace Canvas

/-- Nothing is drawn. -/
def blank : Canvas := ⟨fun _ _ => ⟨' ', .plain⟩⟩

/-- Puts cells next to each other, from a cell on. -/
def put (c : Canvas) (row column : Nat) (cells : List Cell) : Canvas where
  cellAt y x := if y = row ∧ column ≤ x then (cells[x - column]?).getD (c.cellAt y x) else c.cellAt y x

/-- Fills an area with an empty box. -/
def frame (c : Canvas) (a : Area) (style : Style) : Canvas where
  cellAt y x := if a.contains y x then ⟨a.borderChar y x, style⟩ else c.cellAt y x

/-- Puts an empty box, its title upon the upper border. -/
def box (c : Canvas) (a : Area) (style : Style) (title : String) : Canvas :=
  (c.frame a style).put a.top (a.left + 1) (cells style title)

/-- Puts cells into the middle of a line inside a box. -/
def line (c : Canvas) (a : Area) (n : Nat) (cells : List Cell) : Canvas :=
  c.put (a.top + 1 + n) (a.left + 1 + ((a.width - 2) / 2 - cells.length / 2)) cells

/-- Puts lines into the middle of a box, from its first line on. -/
def lines (c : Canvas) (a : Area) (n : Nat) : List (List Cell) → Canvas
  | [] => c
  | cells :: rest => (c.line a n cells).lines a (n + 1) rest

/-- The rows of a canvas down to a height and across a width. -/
def rows (c : Canvas) (width height : Nat) : List (List Cell) :=
  (List.range height).map fun y => (List.range width).map (c.cellAt y)

end Canvas
end Chip8.Terminal
