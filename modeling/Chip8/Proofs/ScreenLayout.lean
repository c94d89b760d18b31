import Chip8.Proofs.Panels
import Chip8.Terminal.Screen

/-!
# The screen of the terminal

A screen of sufficient size is four boxes side by side (`View.draw_eq`). None of them covers another, so every pixel and
every key can be read off it, and so can the state of the run and the tone (`View.screen_shows_machine`).
-/

namespace Chip8.Terminal

/-! ## The layout of the keypad -/

/-- What lies in a row of keys: the keys, and blanks between them. -/
def spread (ks : List Digit) : List (Option Digit) := (ks.map some).intersperse none

/-- The key or the blank in some line of the keypad, at some place in it. -/
def keyInLine (i j : Nat) : Option (Option Digit) := ((keyRows.map spread)[i]?).bind (·[j]?)

/-- Every key has one place on the keypad. -/
theorem exists_unique_keyInLine :
    ∀ k : Digit, ∃ i < 4, ∃ j < 7, keyInLine i j = some (some k) ∧
      ∀ i' < 4, ∀ j' < 7, keyInLine i' j' = some (some k) → i' = i ∧ j' = j := by
  decide +kernel

theorem length_spread : ∀ ks ∈ keyRows, (spread ks).length = 7 := by
  decide

theorem lt_of_keyInLine {i j : Nat} {o : Option Digit} (there : keyInLine i j = some o) : i < 4 ∧ j < 7 := by
  obtain ⟨line, found, there⟩ := Option.bind_eq_some_iff.mp there
  obtain ⟨ks, row, rfl⟩ := List.mem_map.mp (List.mem_of_getElem? found)
  obtain ⟨aboveEnd, -⟩ := List.getElem?_eq_some_iff.mp found
  obtain ⟨beforeEnd, -⟩ := List.getElem?_eq_some_iff.mp there
  rw [length_spread ks row] at beforeEnd
  exact ⟨aboveEnd, beforeEnd⟩

theorem char_ne_blank : ∀ k : Digit, k.char ≠ ' ' := by
  decide

theorem eq_of_char : ∀ j k : Digit, j.char = k.char → j = k := by
  decide

/-- No key looks like a part of its box. -/
theorem char_not_in_border : ∀ k : Digit, k.char ∉ " Keypad ".toList ++ borderChars := by
  decide

namespace View

/-- What a key or a blank between two keys looks like. -/
def spreadCell (v : View) : Option Digit → Cell
  | none => ⟨' ', .plain⟩
  | some k => v.keyCell k

theorem keyRow_eq (v : View) (ks : List Digit) : v.keyRow ks = (spread ks).map v.spreadCell := by
  induction ks with
  | nil => rfl
  | cons k rest ih =>
    cases rest with
    | nil => rfl
    | cons j rest => exact congrArg (v.keyCell k :: ⟨' ', .plain⟩ :: ·) ih

theorem char_spreadCell_eq_iff (v : View) (o : Option Digit) (k : Digit) :
    (v.spreadCell o).char = k.char ↔ o = some k := by
  cases o with
  | none => exact iff_of_false (char_ne_blank k).symm nofun
  | some j => exact ⟨fun same => congrArg some (eq_of_char j k same), fun same => by cases same; rfl⟩

/-! ## The four boxes -/

/-- The box of the display. -/
def displayPanel (v : View) (width height : Nat) : Panel := ⟨displayArea width height, " Display ", v.pixelRows⟩

/-- The box of the run state. -/
def statePanel (v : View) (width : Nat) : Panel := ⟨stateArea width, " State ", [v.stateText]⟩

/-- The box of the tone. -/
def soundPanel (v : View) (width : Nat) : Panel := ⟨soundArea width, " Sound ", [v.soundText]⟩

/-- The box of the keypad. -/
def keypadPanel (v : View) (width : Nat) : Panel := ⟨keypadArea width, " Keypad ", keyRows.map v.keyRow⟩

theorem draw_eq (v : View) {width height : Nat} (wide : 83 ≤ width) (high : 34 ≤ height) :
    v.draw width height =
      (((Canvas.blank.panel (v.displayPanel width height)).panel (v.statePanel width)).panel
        (v.soundPanel width)).panel (v.keypadPanel width) := by
  have enough : ¬ (width < minWidth ∨ height < minHeight) := by
    simp only [minWidth, minHeight, sideWidth, Bitmap.width, Bitmap.height]
    omega
  rw [draw, if_neg enough]
  rfl

section
variable (v : View) {width height : Nat}

theorem length_pixelRow (y : Nat) : (v.pixelRow y).length = 64 := by
  simp [pixelRow, Bitmap.width]

theorem fits_displayPanel (wide : 83 ≤ width) (high : 34 ≤ height) : (v.displayPanel width height).Fits where
  title := by
    have length : " Display ".toList.length = 9 := by decide
    simp only [displayPanel, displayArea, sideWidth, length]
    omega
  height := by
    simp only [displayPanel, displayArea, pixelRows, List.length_map, List.length_range, Bitmap.height]
    omega
  width l member := by
    obtain ⟨y, -, rfl⟩ := List.mem_map.mp member
    simp only [length_pixelRow, displayPanel, displayArea, sideWidth]
    omega

theorem fits_statePanel : (v.statePanel width).Fits where
  title := (by decide : " State ".toList.length + 2 ≤ 17)
  height := (by decide : 1 + 2 ≤ 3)
  width l member := by
    obtain rfl := List.mem_singleton.mp member
    show v.stateText.length + 2 ≤ 17
    unfold stateText
    split <;> decide

theorem fits_soundPanel : (v.soundPanel width).Fits where
  title := (by decide : " Sound ".toList.length + 2 ≤ 17)
  height := (by decide : 1 + 2 ≤ 3)
  width l member := by
    obtain rfl := List.mem_singleton.mp member
    show v.soundText.length + 2 ≤ 17
    unfold soundText
    split <;> decide

theorem fits_keypadPanel : (v.keypadPanel width).Fits where
  title := (by decide : " Keypad ".toList.length + 2 ≤ 17)
  height := (by decide : 4 + 2 ≤ 6)
  width l member := by
    obtain ⟨ks, row, rfl⟩ := List.mem_map.mp member
    rw [keyRow_eq, List.length_map, length_spread ks row]
    exact (by decide : 7 + 2 ≤ 17)

/-- The cells in the lines of the keypad. -/
theorem keypad_text_iff {i j : Nat} {cell : Cell} :
    (∃ cells, (v.keypadPanel width).lines[i]? = some cells ∧ cells[j]? = some cell) ↔
      ∃ o, keyInLine i j = some o ∧ v.spreadCell o = cell := by
  simp only [keypadPanel, keyInLine, List.getElem?_map]
  cases keyRows[i]? with
  | none => simp
  | some ks => simp [keyRow_eq]

theorem start_keyRow {i : Nat} {cells : List Cell} (line : (v.keypadPanel width).lines[i]? = some cells) :
    (keypadArea width).start cells = width - 17 + 5 := by
  obtain ⟨ks, row, rfl⟩ := List.mem_map.mp (List.mem_of_getElem? line)
  rw [Area.start, keyRow_eq, List.length_map, length_spread ks row]
  simp only [keypadArea, sideWidth]

end

/-! ## What can be read off the screen -/

/-- The four boxes of a screen. -/
def areas (width height : Nat) : List Area :=
  [displayArea width height, stateArea width, soundArea width, keypadArea width]

theorem apart_areas (width height : Nat) :
    (areas width height).Pairwise fun a b => ∀ y x, ¬ (a.contains y x = true ∧ b.contains y x = true) := by
  simp only [areas, List.pairwise_cons, List.forall_mem_cons, List.not_mem_nil, IsEmpty.forall_iff, implies_true,
    List.Pairwise.nil, and_true, Area.contains_iff, displayArea, stateArea, soundArea, keypadArea, sideWidth]
  refine ⟨⟨?_, ?_, ?_⟩, ⟨?_, ?_⟩, ?_⟩ <;> intro y x <;> omega

theorem areas_on_screen {width height : Nat} (wide : 83 ≤ width) (high : 34 ≤ height) :
    ∀ a ∈ areas width height, ∀ y x, a.contains y x = true → y < height ∧ x < width := by
  simp only [areas, List.forall_mem_cons, List.not_mem_nil, IsEmpty.forall_iff, implies_true, and_true,
    Area.contains_iff, displayArea, stateArea, soundArea, keypadArea, sideWidth]
  refine ⟨?_, ?_, ?_, ?_⟩ <;> intro y x <;> omega

section
variable (v : View) {width height : Nat} (wide : 83 ≤ width) (high : 34 ≤ height)
include wide high

/-- Nothing covers what is left of the side boxes. -/
theorem cellAt_left {x : Nat} (left : x < width - 17) (y : Nat) :
    (v.draw width height).cellAt y x = (Canvas.blank.panel (v.displayPanel width height)).cellAt y x := by
  rw [v.draw_eq wide high, Canvas.cellAt_panel_outside _ v.fits_keypadPanel (Area.not_contains_of_left left y),
    Canvas.cellAt_panel_outside _ v.fits_soundPanel (Area.not_contains_of_left left y),
    Canvas.cellAt_panel_outside _ v.fits_statePanel (Area.not_contains_of_left left y)]

/-- Nothing covers what is above the keypad. -/
theorem cellAt_above_keypad {y : Nat} (above : y < 6) (x : Nat) :
    (v.draw width height).cellAt y x =
      (((Canvas.blank.panel (v.displayPanel width height)).panel (v.statePanel width)).panel
        (v.soundPanel width)).cellAt y x := by
  rw [v.draw_eq wide high, Canvas.cellAt_panel_outside _ v.fits_keypadPanel (Area.not_contains_of_above above x)]

theorem cellAt_above_sound {y : Nat} (above : y < 3) (x : Nat) :
    (v.draw width height).cellAt y x =
      ((Canvas.blank.panel (v.displayPanel width height)).panel (v.statePanel width)).cellAt y x := by
  rw [v.cellAt_above_keypad wide high (by omega),
    Canvas.cellAt_panel_outside _ v.fits_soundPanel (Area.not_contains_of_above above x)]

/-- A pixel stands inside the border of the display. -/
theorem cellAt_pixel {y x : Nat} (row : y < 32) (column : x < 64) :
    (v.draw width height).cellAt (1 + y) (1 + (width - 19) / 2 - 32 + x) =
        ⟨if v.display.pixel y x then '█' else ' ', .on .green⟩ ∧
      1 + y + 1 < height ∧ 0 < 1 + (width - 19) / 2 - 32 + x ∧ 1 + (width - 19) / 2 - 32 + x + 1 < width - 17 := by
  have fits := v.fits_displayPanel wide high
  have line : (v.displayPanel width height).lines[y]? = some (v.pixelRow y) := by
    simp [displayPanel, pixelRows, Bitmap.height, row]
  have there : (v.pixelRow y)[x]? = some ⟨if v.display.pixel y x then '█' else ' ', .on .green⟩ := by
    simp [pixelRow, Bitmap.width, column]
  have place : 1 + (width - 19) / 2 - 32 + x = (v.displayPanel width height).area.start (v.pixelRow y) + x := by
    simp only [Area.start, length_pixelRow, displayPanel, displayArea, sideWidth]
    omega
  have within := Canvas.within_of_fits fits line there
  have text := Canvas.cellAt_panel_text Canvas.blank line there
  rw [← place] at within text
  have inside : 0 + 1 + y + 1 < 0 + height ∧ 0 < 1 + (width - 19) / 2 - 32 + x ∧
      1 + (width - 19) / 2 - 32 + x + 1 < 0 + (width - 17) := within
  rw [v.cellAt_left wide high (by omega)]
  exact ⟨text, by omega⟩

/-- Every key stands in one cell of its box. -/
theorem exists_unique_key (k : Digit) : ∃ row column, (keypadArea width).contains row column = true ∧
    (v.draw width height).cellAt row column = ⟨k.char, if v.keypad.holds k then ⟨.black, .white⟩ else .plain⟩ ∧
    ∀ y x, (keypadArea width).contains y x = true → ((v.draw width height).cellAt y x).char = k.char →
      y = row ∧ x = column := by
  rw [v.draw_eq wide high]
  obtain ⟨i, -, j, -, here, only⟩ := exists_unique_keyInLine k
  obtain ⟨cells, line, there⟩ := v.keypad_text_iff.mpr ⟨some k, here, rfl⟩
  refine ⟨6 + 1 + i, width - 17 + 5 + j, ?_, ?_, fun y x inside same => ?_⟩
  · rw [← v.start_keyRow line]
    exact Canvas.contains_of_fits v.fits_keypadPanel line there
  · rw [← v.start_keyRow line]
    exact Canvas.cellAt_panel_text _ line there
  · -- neither the title nor the border has a character of a key
    rcases Canvas.cellAt_panel_inside (p := v.keypadPanel width) _ inside with
      ⟨i', j', cells', line', there', rfl, rfl⟩ | other
    · obtain ⟨o, here', looks⟩ := v.keypad_text_iff.mp ⟨cells', line', there'⟩
      rw [← looks, char_spreadCell_eq_iff] at same
      subst same
      obtain ⟨above, before⟩ := lt_of_keyInLine here'
      obtain ⟨rfl, rfl⟩ := only i' above j' before here'
      exact ⟨rfl, by rw [← v.start_keyRow line']; rfl⟩
    · rw [same] at other
      exact absurd other (char_not_in_border k)

theorem reads_running : (v.draw width height).Reads (stateArea width) "RUNNING" ↔ v.running = true := by
  have shown y x (inside : (stateArea width).contains y x = true) :=
    v.cellAt_above_sound wide high (show y < 0 + 3 from ((Area.contains_iff _ y x).mp inside).1.2) x
  rw [Canvas.reads_congr shown]
  exact Canvas.reads_iff_of_choice v.fits_statePanel rfl (by decide : 'R' ∈ "RUNNING".toList)
    (by decide : 'R' ∉ "STOPPED".toList ++ (" State ".toList ++ borderChars))

theorem reads_beep : (v.draw width height).Reads (soundArea width) "BEEP" ↔ v.sounding = true := by
  have shown y x (inside : (soundArea width).contains y x = true) :=
    v.cellAt_above_keypad wide high (show y < 3 + 3 from ((Area.contains_iff _ y x).mp inside).1.2) x
  rw [Canvas.reads_congr shown]
  exact Canvas.reads_iff_of_choice v.fits_soundPanel rfl (by decide : 'B' ∈ "BEEP".toList)
    (by decide : 'B' ∉ "-".toList ++ (" Sound ".toList ++ borderChars))

end

/-- A screen too small says so, and nothing of the machine. -/
theorem draw_of_small (v : View) {width height : Nat} (small : width < 83 ∨ height < 34) :
    v.draw width height = tooSmall width height := by
  rw [draw, if_pos]
  simpa only [minWidth, minHeight, sideWidth, Bitmap.width, Bitmap.height] using small

/-- On a screen of sufficient size the four boxes are apart and inside. Every pixel has its place inside the border of
the display, where nothing covers it. Every key stands in one cell of its box, which stands out exactly while the key
is held. The other two boxes say whether the machine runs and whether a tone is to be heard. A smaller screen shows
nothing of all this. -/
theorem screen_shows_machine (v : View) (width height : Nat) :
    (83 ≤ width → 34 ≤ height →
      let screen := v.draw width height
      (((areas width height).Pairwise fun a b => ∀ y x, ¬ (a.contains y x = true ∧ b.contains y x = true)) ∧
        ∀ a ∈ areas width height, ∀ y x, a.contains y x = true → y < height ∧ x < width) ∧
      (∀ y < 32, ∀ x < 64,
        let column := 1 + (width - 19) / 2 - 32 + x
        screen.cellAt (1 + y) column = ⟨if v.display.pixel y x then '█' else ' ', .on .green⟩ ∧
          1 + y + 1 < height ∧ 0 < column ∧ column + 1 < width - 17) ∧
      (∀ k : Digit, ∃ row column, (keypadArea width).contains row column = true ∧
        screen.cellAt row column = ⟨k.char, if v.keypad.holds k then ⟨.black, .white⟩ else .plain⟩ ∧
        ∀ y x, (keypadArea width).contains y x = true → (screen.cellAt y x).char = k.char → y = row ∧ x = column) ∧
      (screen.Reads (stateArea width) "RUNNING" ↔ v.running = true) ∧
      (screen.Reads (soundArea width) "BEEP" ↔ v.sounding = true)) ∧
    (45 ≤ width → 3 ≤ height → width < 83 ∨ height < 34 →
      ∀ other : View, other.draw width height = v.draw width height) := by
  refine ⟨fun wide high => ⟨⟨apart_areas width height, areas_on_screen wide high⟩, ?_, ?_, ?_, ?_⟩, ?_⟩
  · exact fun y row x column => v.cellAt_pixel wide high row column
  · exact v.exists_unique_key wide high
  · exact v.reads_running wide high
  · exact v.reads_beep wide high
  · intro _ _ small other
    rw [draw_of_small other small, draw_of_small v small]

/-- Opposite corners of the display are on and two keys are held, while a machine that does not run sounds. -/
def cornered : View where
  display := (Bitmap.ink [0x80] 0 0).flip (Bitmap.ink [0x80] 63 31)
  keypad := (Keypad.idle.press 0x0).press 0xC
  running := false
  sounding := true

theorem screen_shows_cornered :
    let screen := cornered.draw 84 34
    screen.cellAt 32 64 = ⟨'█', .on .green⟩ ∧ screen.cellAt 32 63 = ⟨' ', .on .green⟩ ∧
      (∃ row column, (keypadArea 84).contains row column = true ∧
        screen.cellAt row column = ⟨'C', ⟨.black, .white⟩⟩) ∧
      ¬ screen.Reads (stateArea 84) "RUNNING" ∧ screen.Reads (soundArea 84) "BEEP" ∧
      ∀ other : View, other.draw 82 34 = cornered.draw 82 34 := by
  intro screen
  obtain ⟨-, pixels, keys, running, sounding⟩ := (screen_shows_machine cornered 84 34).1 (by decide) (by decide)
  have small := (screen_shows_machine cornered 82 34).2 (by decide) (by decide) (by decide)
  refine ⟨?_, ?_, ?_, fun read => Bool.false_ne_true (running.mp read), sounding.mpr rfl, small⟩
  · exact (pixels 31 (by decide) 63 (by decide)).1.trans (by decide +kernel)
  · exact (pixels 31 (by decide) 62 (by decide)).1.trans (by decide +kernel)
  · obtain ⟨row, column, inside, shown, -⟩ := keys 0xC
    exact ⟨row, column, inside, shown.trans (by decide +kernel)⟩

end View
end Chip8.Terminal
