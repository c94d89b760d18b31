import Chip8.Terminal.Canvas
import Mathlib.Data.List.Basic

/-!
# Boxes with text

What the cells of a canvas show behind a box with a title and lines in its middle. A cell of the box is a cell of a
line or else belongs to the title or the border (`Canvas.cellAt_panel_inside`), and when title and lines have room
inside, the other cells stay as they were (`Canvas.cellAt_panel_outside`).
-/

namespace Chip8.Terminal

/-- A box, its title and the lines of text in it. -/
structure Panel where
  area : Area
  title : String
  lines : List (List Cell)

/-- The title and the lines of a box have room inside it. -/
structure Panel.Fits (p : Panel) : Prop where
  title : p.title.toList.length + 2 ≤ p.area.width
  height : p.lines.length + 2 ≤ p.area.height
  width : ∀ l ∈ p.lines, l.length + 2 ≤ p.area.width

/-- The characters of borders and of empty cells. -/
def borderChars : List Char := ['┌', '┐', '└', '┘', '─', '│', ' ']

/-- The one of some cells that comes to stand at a place when they are put next to each other, from a cell on. -/
def putAt (row column : Nat) (cells : List Cell) (y x : Nat) : Option Cell :=
  if y = row ∧ column ≤ x then cells[x - column]? else none

theorem putAt_eq_some_iff {row column y x : Nat} {cells : List Cell} {cell : Cell} :
    putAt row column cells y x = some cell ↔ ∃ j, cells[j]? = some cell ∧ y = row ∧ x = column + j := by
  unfold putAt
  constructor
  · intro there
    split at there
    · exact ⟨x - column, there, by omega, by omega⟩
    · cases there
  · rintro ⟨j, there, rfl, rfl⟩
    simp [there]

theorem char_of_mem_cells {style : Style} {text : String} {cell : Cell} (member : cell ∈ cells style text) :
    cell.char ∈ text.toList := by
  obtain ⟨char, there, rfl⟩ := List.mem_map.mp member
  exact there

namespace Area

theorem contains_iff (a : Area) (row column : Nat) :
    a.contains row column = true ↔
      (a.top ≤ row ∧ row < a.top + a.height) ∧ a.left ≤ column ∧ column < a.left + a.width := by
  simp [contains, and_assoc]

theorem not_contains_of_above {a : Area} {row : Nat} (above : row < a.top) (column : Nat) :
    a.contains row column = false := by
  rw [← Bool.not_eq_true, contains_iff]
  omega

theorem not_contains_of_left {a : Area} {column : Nat} (left : column < a.left) (row : Nat) :
    a.contains row column = false := by
  rw [← Bool.not_eq_true, contains_iff]
  omega

theorem borderChar_mem (a : Area) (row column : Nat) : a.borderChar row column ∈ borderChars := by
  unfold borderChar
  simp only
  split_ifs <;> decide

/-- The column where a line begins that is put into the middle. -/
def start (a : Area) (cells : List Cell) : Nat := a.left + 1 + ((a.width - 2) / 2 - cells.length / 2)

/-- The cell of some lines, put into the middle one below the other, that comes to stand at a place. -/
def textAt (a : Area) (n : Nat) : List (List Cell) → Nat → Nat → Option Cell
  | [], _, _ => none
  | cells :: rest, y, x => (a.textAt (n + 1) rest y x).or (putAt (a.top + 1 + n) (a.start cells) cells y x)

theorem textAt_eq_some_iff {a : Area} {n : Nat} {lines : List (List Cell)} {y x : Nat} {cell : Cell} :
    a.textAt n lines y x = some cell ↔
      ∃ i j cells, lines[i]? = some cells ∧ cells[j]? = some cell ∧ y = a.top + 1 + n + i ∧ x = a.start cells + j := by
  induction lines generalizing n cell with
  | nil => simp [textAt]
  | cons first rest ih =>
    rw [textAt, Option.or_eq_some_iff, ih, putAt_eq_some_iff]
    constructor
    · rintro (⟨i, j, cells, line, there, rfl, rfl⟩ | ⟨-, j, there, rfl, rfl⟩)
      · exact ⟨i + 1, j, cells, line, there, by omega, rfl⟩
      · exact ⟨0, j, first, rfl, there, rfl, rfl⟩
    · rintro ⟨i, j, cells, line, there, rfl, rfl⟩
      cases i with
      | zero =>
        cases line
        refine .inr ⟨?_, j, there, rfl, rfl⟩
        -- the other lines are further down
        rw [Option.eq_none_iff_forall_ne_some]
        intro other found
        obtain ⟨i, -, -, -, -, lower, -⟩ := ih.mp found
        omega
      | succ i => exact .inl ⟨i, j, cells, line, there, by omega, rfl⟩

end Area

namespace Canvas

theorem cellAt_put (c : Canvas) (row column y x : Nat) (cells : List Cell) :
    (c.put row column cells).cellAt y x = (putAt row column cells y x).getD (c.cellAt y x) := by
  by_cases here : y = row ∧ column ≤ x <;> simp [put, putAt, here]

theorem cellAt_lines (c : Canvas) (a : Area) (n : Nat) (lines : List (List Cell)) (y x : Nat) :
    (c.lines a n lines).cellAt y x = (a.textAt n lines y x).getD (c.cellAt y x) := by
  induction lines generalizing c n with
  | nil => rfl
  | cons cells rest ih =>
    rw [Canvas.lines, ih, line, cellAt_put, Area.textAt, Option.getD_or]
    rfl

/-- Puts a box with its lines. -/
def panel (c : Canvas) (p : Panel) : Canvas := (c.box p.area .plain p.title).lines p.area 0 p.lines

section
variable (c : Canvas) {p : Panel} {y x : Nat}

/-- A cell of a line. -/
theorem cellAt_panel_text {i j : Nat} {cells : List Cell} {cell : Cell} (line : p.lines[i]? = some cells)
    (there : cells[j]? = some cell) : (c.panel p).cellAt (p.area.top + 1 + i) (p.area.start cells + j) = cell := by
  have text : p.area.textAt 0 p.lines (p.area.top + 1 + i) (p.area.start cells + j) = some cell :=
    Area.textAt_eq_some_iff.mpr ⟨i, j, cells, line, there, rfl, rfl⟩
  rw [panel, cellAt_lines, text]
  rfl

/-- Lines that have room stand inside the border. -/
theorem within_of_fits (fits : p.Fits) {i j : Nat} {cells : List Cell} {cell : Cell}
    (line : p.lines[i]? = some cells) (there : cells[j]? = some cell) :
    p.area.top + 1 + i + 1 < p.area.top + p.area.height ∧ p.area.left < p.area.start cells + j ∧
      p.area.start cells + j + 1 < p.area.left + p.area.width := by
  obtain ⟨aboveEnd, -⟩ := List.getElem?_eq_some_iff.mp line
  obtain ⟨beforeEnd, -⟩ := List.getElem?_eq_some_iff.mp there
  have high := fits.height
  have wide := fits.width cells (List.mem_of_getElem? line)
  unfold Area.start
  omega

theorem contains_of_fits (fits : p.Fits) {i j : Nat} {cells : List Cell} {cell : Cell}
    (line : p.lines[i]? = some cells) (there : cells[j]? = some cell) :
    p.area.contains (p.area.top + 1 + i) (p.area.start cells + j) = true := by
  have within := within_of_fits fits line there
  rw [Area.contains_iff]
  omega

/-- A cell of the box belongs to a line or to the title or the border. -/
theorem cellAt_panel_inside (inside : p.area.contains y x = true) :
    (∃ i j cells, p.lines[i]? = some cells ∧ cells[j]? = some ((c.panel p).cellAt y x) ∧
      y = p.area.top + 1 + i ∧ x = p.area.start cells + j) ∨
    ((c.panel p).cellAt y x).char ∈ p.title.toList ++ borderChars := by
  rw [panel, cellAt_lines]
  cases text : p.area.textAt 0 p.lines y x with
  | some cell => exact .inl (Area.textAt_eq_some_iff.mp text)
  | none =>
    refine .inr (List.mem_append.mpr ?_)
    rw [Option.getD_none, box, cellAt_put]
    cases title : putAt p.area.top (p.area.left + 1) (cells .plain p.title) y x with
    | some cell =>
      obtain ⟨j, there, -, -⟩ := putAt_eq_some_iff.mp title
      exact .inl (char_of_mem_cells (List.mem_of_getElem? there))
    | none =>
      simp only [frame, inside, Option.getD_none, ↓reduceIte]
      exact .inr (p.area.borderChar_mem y x)

theorem cellAt_panel_outside (fits : p.Fits) (outside : p.area.contains y x = false) :
    (c.panel p).cellAt y x = c.cellAt y x := by
  have noText : p.area.textAt 0 p.lines y x = none := by
    rw [Option.eq_none_iff_forall_ne_some]
    intro cell found
    obtain ⟨i, j, cells, line, there, rfl, rfl⟩ := Area.textAt_eq_some_iff.mp found
    rw [Nat.add_zero, contains_of_fits fits line there] at outside
    cases outside
  have noTitle : putAt p.area.top (p.area.left + 1) (cells .plain p.title) y x = none := by
    rw [Option.eq_none_iff_forall_ne_some]
    intro cell found
    obtain ⟨j, there, rfl, rfl⟩ := putAt_eq_some_iff.mp found
    obtain ⟨beforeEnd, -⟩ := List.getElem?_eq_some_iff.mp there
    have high := fits.height
    have wide := fits.title
    rw [cells, List.length_map] at beforeEnd
    rw [← Bool.not_eq_true, Area.contains_iff] at outside
    omega
  rw [panel, cellAt_lines, noText, Option.getD_none, box, cellAt_put, noTitle]
  simp [frame, outside]

end

/-! ## Texts in an area -/

/-- Whether a text can be read in a row of an area. -/
def Reads (c : Canvas) (a : Area) (text : String) : Prop :=
  ∃ row column, ∀ j char, text.toList[j]? = some char →
    a.contains row (column + j) = true ∧ (c.cellAt row (column + j)).char = char

section
variable {c d : Canvas} {a : Area} {p : Panel} {text : String}

theorem reads_congr (same : ∀ y x, a.contains y x = true → d.cellAt y x = c.cellAt y x) :
    d.Reads a text ↔ c.Reads a text := by
  unfold Reads
  refine exists_congr fun row => exists_congr fun column => forall_congr' fun j => forall_congr' fun char => ?_
  refine imp_congr_right fun _ => and_congr_right fun inside => ?_
  rw [same _ _ inside]

theorem reads_line (fits : p.Fits) {style : Style} (line : p.lines = [cells style text]) :
    (c.panel p).Reads p.area text := by
  have first : p.lines[0]? = some (cells style text) := by rw [line]; rfl
  refine ⟨p.area.top + 1 + 0, p.area.start (cells style text), fun j char there => ?_⟩
  have cell : (cells style text)[j]? = some ⟨char, style⟩ := by simp [cells, there]
  rw [cellAt_panel_text c first cell]
  exact ⟨contains_of_fits fits first cell, rfl⟩

/-- A text cannot be read where one of its characters is missing. -/
theorem not_reads_line {other : String} {style : Style} (line : p.lines = [cells style other]) {char : Char}
    (member : char ∈ text.toList) (missing : char ∉ other.toList ++ (p.title.toList ++ borderChars)) :
    ¬ (c.panel p).Reads p.area text := by
  rintro ⟨row, column, stands⟩
  obtain ⟨j, there⟩ := List.mem_iff_getElem?.mp member
  obtain ⟨inside, shown⟩ := stands j char there
  apply missing
  rw [List.mem_append, ← shown]
  refine (cellAt_panel_inside c inside).imp_left ?_
  rintro ⟨i, k, found, first, cell, -, -⟩
  rw [line] at first
  rw [List.mem_singleton.mp (List.mem_of_getElem? first)] at cell
  exact char_of_mem_cells (List.mem_of_getElem? cell)

/-- Of two texts that a box can show, a given one can be read exactly if it is shown. -/
theorem reads_iff_of_choice (fits : p.Fits) {b : Bool} {other : String} {style style' : Style}
    (line : p.lines = [if b then cells style text else cells style' other]) {char : Char}
    (member : char ∈ text.toList) (missing : char ∉ other.toList ++ (p.title.toList ++ borderChars)) :
    (c.panel p).Reads p.area text ↔ b = true := by
  cases b with
  | true => exact iff_of_true (reads_line fits line) rfl
  | false => exact iff_of_false (not_reads_line line member missing) nofun

end

end Canvas
end Chip8.Terminal
