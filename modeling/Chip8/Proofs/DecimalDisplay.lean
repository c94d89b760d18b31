import Chip8.Proofs.AddressSpace
import Chip8.Proofs.Sprites
import Chip8.Proofs.StoredRegisters

/-!
# Numbers on the display

A program shows a number by taking it apart into decimal digits in memory, filling registers with them and drawing
their glyphs. The digits make up the number again (`Machine.number_of_digits`), and as long as they were not written
over the glyphs, the index comes to stand at the rows of each (`Machine.spriteAt_glyph`).
-/

namespace Chip8

/-- The rows of one glyph. -/
def Font.rows (d : Nat) : List UInt8 := (table.drop (5 * d)).take 5

namespace Memory

/-- The place of a row of the glyphs, counted from the first row of the first one. -/
def glyphPlace (m : Memory) (j : Nat) : Fin 4096 := ⟨(m.fontBase.toNat + j) % 4096, Nat.mod_lt _ (by decide)⟩

theorem glyphPlace_eq (m : Memory) (j : Nat) : m.glyphPlace j = Fin.ofNat 4096 (m.fontBase.toNat + j) := rfl

def HoldsGlyphs (m : Memory) : Prop := ∀ j < Font.table.length, m.bytes.get (m.glyphPlace j) = Font.table.getD j 0

theorem holdsGlyphs_fresh (base : UInt16) : (fresh base).HoldsGlyphs := by
  intro j glyph
  rw [glyphPlace_eq, fontBase_fresh]
  exact place_fresh base glyph

theorem HoldsGlyphs.load {m : Memory} (glyphs : m.HoldsGlyphs) {origin : UInt16} {data : List UInt8}
    (apart : ∀ i < data.length, ∀ j < Font.table.length, (m.glyphPlace j).val ≠ (origin.toNat + i) % 4096) :
    (m.load origin data).HoldsGlyphs := by
  intro j glyph
  rw [glyphPlace_eq, fontBase_load, ← glyphPlace_eq, get_bytes_load_outside fun i below => apart i below j glyph]
  exact glyphs j glyph

end Memory

namespace Machine

/-! ## Digits -/

theorem digit_of_mem {b d : UInt8} (member : d ∈ decimalDigits b) : d.toNat ≤ 9 := by
  have bound := b.toNat_lt
  simp only [decimalDigits, List.mem_cons, List.not_mem_nil, or_false] at member
  rcases member with rfl | rfl | rfl
  · simp only [UInt8.toNat_div, UInt8.reduceToNat]
    omega
  · simp only [UInt8.toNat_mod, UInt8.toNat_div, UInt8.reduceToNat]
    omega
  · simp only [UInt8.toNat_mod, UInt8.reduceToNat]
    omega

theorem number_of_decimalDigits (b : UInt8) :
    100 * (b / 100).toNat + 10 * (b / 10 % 10).toNat + (b % 10).toNat = b.toNat := by
  simp only [UInt8.toNat_mod, UInt8.toNat_div, UInt8.reduceToNat]
  omega

theorem memory_decimal (m : Machine) (r : Digit) :
    (m.perform (.decimal r)).memory = m.memory.load m.index (decimalDigits (m.v.get r)) := rfl

theorem get_decimal (m : Machine) (r : Digit) {j : Nat} (below : j < (decimalDigits (m.v.get r)).length) :
    (m.perform (.decimal r)).memory.bytes.get (m.placeAt j) = (decimalDigits (m.v.get r))[j] := by
  have short : (decimalDigits (m.v.get r)).length ≤ 4096 := Nat.le_of_ble_eq_true rfl
  rw [memory_decimal, placeAt_eq, Memory.get_bytes_load short m.memory below]

theorem get_decimal_outside {m : Machine} (r : Digit) {place : Fin 4096} (outside : ∀ i < 3, place ≠ m.placeAt i) :
    (m.perform (.decimal r)).memory.bytes.get place = m.memory.bytes.get place := by
  rw [memory_decimal]
  apply Memory.get_bytes_load_outside
  intro j below here
  exact outside j below (Fin.ext here)

/-- The machine once the decimal digits of a register have come to the first registers. -/
def digits (m : Machine) (r : Digit) : Machine := (m.perform (.decimal r)).perform (.fill 2)

theorem get_digits (m : Machine) (r : Digit) {d : Digit} (few : d ≤ 2) :
    (m.digits r).v.get d = (decimalDigits (m.v.get r)).get ⟨d.val, Nat.lt_succ_of_le few⟩ := by
  rw [digits, get_fill, if_pos few]
  exact m.get_decimal r (Nat.lt_succ_of_le few)

theorem memory_digits (m : Machine) (r : Digit) : (m.digits r).memory = (m.perform (.decimal r)).memory := by
  rw [digits, memory_fill]

theorem digit_of_digits (m : Machine) (r : Digit) {d : Digit} (few : d ≤ 2) : ((m.digits r).v.get d).toNat ≤ 9 := by
  rw [get_digits m r few]
  exact digit_of_mem (List.get_mem _ _)

theorem number_of_digits (m : Machine) (r : Digit) :
    100 * ((m.digits r).v.get 0).toNat + 10 * ((m.digits r).v.get 1).toNat + ((m.digits r).v.get 2).toNat =
      (m.v.get r).toNat := by
  rw [get_digits m r (by decide), get_digits m r (by decide), get_digits m r (by decide)]
  exact number_of_decimalDigits (m.v.get r)

/-! ## Glyphs -/

theorem holdsGlyphs_digits {m : Machine} (r : Digit) (glyphs : m.memory.HoldsGlyphs)
    (apart : ∀ i < 3, ∀ j < Font.table.length, m.placeAt i ≠ m.memory.glyphPlace j) :
    (m.digits r).memory.HoldsGlyphs := by
  rw [memory_digits, memory_decimal]
  apply glyphs.load
  intro i few j glyph here
  exact apart i few j glyph (Fin.ext here).symm

theorem length_rows {d : Nat} (digit : d < 16) : (Font.rows d).length = 5 := by
  have rows : Font.table.length = 80 := rfl
  rw [Font.rows, List.length_take, List.length_drop, rows]
  omega

/-- The index comes to the first row of a glyph, whatever runs over on the way. -/
theorem placeAt_glyph (m : Machine) (d : Digit) (j : Nat) :
    (m.perform (.glyph d)).placeAt j = m.memory.glyphPlace (5 * (m.v.get d).toNat + j) := by
  simp only [placeAt, toNat_index_perform, indexSum, Memory.glyphPlace, Fin.ext_iff]
  omega

theorem v_glyph (m : Machine) (d : Digit) : (m.perform (.glyph d)).v = m.v := rfl

theorem spriteAt_glyph {m : Machine} (glyphs : m.memory.HoldsGlyphs) {d : Digit} (digit : (m.v.get d).toNat < 16) :
    (m.perform (.glyph d)).spriteAt 5 = Font.rows (m.v.get d).toNat := by
  have rows : Font.table.length = 80 := rfl
  apply List.ext_getElem
  · rw [length_rows digit]
    simp [spriteAt]
  · intro j below within
    have few : j < 5 := by simpa [spriteAt] using below
    have glyph : 5 * (m.v.get d).toNat + j < Font.table.length := by omega
    have row := glyphs _ glyph
    rw [← placeAt_glyph] at row
    simp only [spriteAt, List.getElem_map, List.getElem_range]
    refine row.trans ?_
    simp [Font.rows, List.getD_eq_getElem?_getD, List.getElem?_eq_getElem glyph]

theorem display_cycle_of_draw {m : Machine} {p q k : Digit} (draws : m.next = .draw p q k) :
    m.cycle.machine.display = (m.display.draw (m.spriteAt k.val) (m.v.get p) (m.v.get q)).1 := by
  obtain ⟨first, rfl, rfl, rfl⟩ := Instruction.fits_of_decode draws nofun
  exact (cycle_of_draw first).2.1

/-- The digits of a number reach the display. They are three digits that make up the number, and no byte is changed but
those that they were written to. If these lie apart from the glyphs, and the glyphs stand where they should, the
glyph of each of the three is where the index then comes to stand, whatever runs over the end of memory or of the
sixteen bits of an address; and a machine that meets the three instructions and then one that draws five rows draws
it, whatever happens to the machine between them but for a program that is loaded. -/
theorem decimal_digits_reach_the_display (m : Machine) (r : Digit) (glyphs : m.memory.HoldsGlyphs)
    (apart : ∀ i < 3, ∀ j < Font.table.length, m.placeAt i ≠ m.memory.glyphPlace j) :
    let digit (d : Digit) := ((m.digits r).v.get d).toNat
    digit 0 ≤ 9 ∧ digit 1 ≤ 9 ∧ digit 2 ≤ 9 ∧
    100 * digit 0 + 10 * digit 1 + digit 2 = (m.v.get r).toNat ∧
    (∀ place, (∀ i < 3, place ≠ m.placeAt i) →
      (m.digits r).memory.bytes.get place = m.memory.bytes.get place) ∧
    (∀ d ≤ (2 : Digit), ((m.digits r).perform (.glyph d)).spriteAt 5 = Font.rows (digit d)) ∧
    ∀ (h : List Action) (d p q : Digit), d ≤ 2 → (∀ a ∈ h, ∀ rom, a ≠ .load rom) →
      (m.words h).map Instruction.decode = [.decimal r, .fill 2, .glyph d] →
      let n := m.through h
      n.next = .draw p q 5 → n.cycle.machine.display =
        (n.display.draw (Font.rows (digit d)) ((m.digits r).v.get p) ((m.digits r).v.get q)).1 := by
  intro digit
  have small : ∀ d ≤ (2 : Digit), digit d ≤ 9 := fun d few => m.digit_of_digits r few
  have pointed : ∀ d ≤ (2 : Digit), ((m.digits r).perform (.glyph d)).spriteAt 5 = Font.rows (digit d) := by
    intro d few
    exact spriteAt_glyph (holdsGlyphs_digits r glyphs apart) (Nat.lt_of_le_of_lt (small d few) (by decide))
  refine ⟨small 0 (by decide), small 1 (by decide), small 2 (by decide), m.number_of_digits r, ?_, pointed, ?_⟩
  · intro place outside
    rw [memory_digits, get_decimal_outside r outside]
  · intro h d p q few noLoad met n draws
    have onData : ∀ i ∈ (m.words h).map Instruction.decode, i.onData = true := by
      rw [met]
      simp [Instruction.onData]
    -- What happens between the instructions does not reach what they leave for the drawing.
    have same : n.SameData ((m.digits r).perform (.glyph d)) := by
      have left := sameData_through noLoad onData
      rw [met] at left
      exact left
    have rows : n.spriteAt 5 = Font.rows (digit d) := by
      rw [← pointed d few, spriteAt, spriteAt, same.memory, same.index]
    have registers : n.v = (m.digits r).v := same.v.trans (v_glyph _ d)
    rw [display_cycle_of_draw draws, registers]
    exact congrArg (fun rows => (n.display.draw rows _ _).1) rows

/-- A machine with the glyph of zero around the end of all addresses, and a program that shows the second digit of
207. -/
def showingTens : Machine :=
  { (fresh ⟨defaultClock, 0xFFFE⟩ []).set 0x3 207 with
    index := 0x300, memory := (Memory.fresh 0xFFFE).load programStart [0xF3, 0x33, 0xF2, 0x65, 0xF1, 0x29, 0xD5, 0x65] }

theorem glyphs_of_showingTens : showingTens.memory.HoldsGlyphs ∧
    ∀ i < 3, ∀ j < Font.table.length, showingTens.placeAt i ≠ showingTens.memory.glyphPlace j := by
  have base : showingTens.memory.fontBase = 0xFFFE := by simp [showingTens]
  have rows : Font.table.length = 80 := rfl
  constructor
  · apply (Memory.holdsGlyphs_fresh 0xFFFE).load
    intro i below j glyph
    simp only [List.length_cons, List.length_nil] at below
    simp only [Memory.glyphPlace, Memory.fontBase_fresh, programStart, UInt16.reduceToNat]
    omega
  · intro i few j glyph
    have index : showingTens.index = 0x300 := rfl
    simp only [placeAt, index, Memory.glyphPlace, base, ne_eq, Fin.ext_iff, UInt16.reduceToNat]
    omega

theorem digits_reach_the_display_showingTens :
    let digit (d : Digit) := ((showingTens.digits 0x3).v.get d).toNat
    100 * digit 0 + 10 * digit 1 + digit 2 = 207 ∧
    (showingTens.through [.cycle, .tick, .cycle, .cycle]).cycle.machine.display =
      (Bitmap.blank.draw [0xF0, 0x90, 0x90, 0x90, 0xF0] 0 0).1 := by
  intro digit
  obtain ⟨glyphs, apart⟩ := glyphs_of_showingTens
  have met : (showingTens.words [.cycle, .tick, .cycle, .cycle]).map Instruction.decode =
      [.decimal 0x3, .fill 2, .glyph 1] := by decide +kernel
  have draws : (showingTens.through [.cycle, .tick, .cycle, .cycle]).next = .draw 0x5 0x6 5 := by decide +kernel
  obtain ⟨-, -, -, number, -, -, drawn⟩ := decimal_digits_reach_the_display showingTens 0x3 glyphs apart
  have shown := drawn [.cycle, .tick, .cycle, .cycle] 1 0x5 0x6 (by decide) (by simp) met draws
  have register : (showingTens.v.get 0x3).toNat = 207 := by decide +kernel
  refine ⟨number.trans register, ?_⟩
  rw [shown]
  decide +kernel

end Machine
end Chip8
