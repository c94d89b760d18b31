import Chip8.Proofs.Checked.Drawing
import Chip8.Proofs.Effects
import Chip8.Proofs.Places

/-!
# Sprites

Where the bits of a sprite lie on the display (`Bitmap.covers`): its origin wraps, its body is cut off. Drawing
turns over the pixels with a bit on them, and collides if one of those was on (`Bitmap.pixel_draw`,
`Bitmap.collides_iff`). A machine draws the bytes from its index on (`Machine.cycle_of_draw`).
-/

namespace Chip8

namespace Bitmap

/-- Whether a set bit of a sprite lies on a pixel. -/
def covers (sprite : List UInt8) (x y : UInt8) (r c : Nat) : Bool :=
  decide (y.toNat % 32 ≤ r ∧ r - y.toNat % 32 < sprite.length ∧ x.toNat % 64 ≤ c ∧ c - x.toNat % 64 < 8) &&
    (sprite.getD (r - y.toNat % 32) 0).toNat.testBit (7 - (c - x.toNat % 64))

theorem getMsbD_toBitVec (byte : UInt8) (k : Nat) :
    byte.toBitVec.getMsbD k = (decide (k < 8) && byte.toNat.testBit (7 - k)) := by
  rw [BitVec.getMsbD_eq_getLsbD, BitVec.getLsbD, UInt8.toNat_toBitVec]

theorem pixel_ink_eq_covers (sprite : List UInt8) (x y : UInt8) {r c : Nat} (inside : r < 32) (within : c < 64) :
    (ink sprite x y).pixel r c = covers sprite x y r c := by
  rw [pixel_ink _ _ _ inside within, covers, getMsbD_toBitVec]
  by_cases below : r - y.toNat % 32 < sprite.length
  · simp only [below, true_and, Bool.decide_and, Bool.and_assoc]
  · -- The rows that a sprite does not have are rows of zeros.
    simp [below]

theorem pixel_draw (b : Bitmap) (sprite : List UInt8) (x y : UInt8) {r c : Nat} (inside : r < 32) (within : c < 64) :
    (b.draw sprite x y).1.pixel r c = (b.pixel r c ^^ covers sprite x y r c) := by
  rw [draw, pixel_flip, pixel_ink_eq_covers sprite x y inside within]

theorem collides_iff (b : Bitmap) (sprite : List UInt8) (x y : UInt8) :
    (b.draw sprite x y).2 = true ↔ ∃ r < 32, ∃ c < 64, covers sprite x y r c = true ∧ b.pixel r c = true := by
  rw [draw, overlaps_iff]
  constructor
  · rintro ⟨r, inside, c, within, on, inked⟩
    rw [pixel_ink_eq_covers sprite x y inside within] at inked
    exact ⟨r, inside, c, within, inked, on⟩
  · rintro ⟨r, inside, c, within, covered, on⟩
    rw [← pixel_ink_eq_covers sprite x y inside within] at covered
    exact ⟨r, inside, c, within, on, covered⟩

end Bitmap

namespace Machine
open Word Instruction

/-- The bytes from the index on, around the end of memory. -/
def spriteAt (m : Machine) (count : Nat) : List UInt8 :=
  (List.range count).map fun j => m.memory.bytes.get (Fin.ofNat 4096 (m.index.toNat + j))

/-- A cycle that draws finds the coordinates in the registers before it puts the collision into the last of them. -/
theorem cycle_of_draw {m : Machine} (first : head (m.wordAt m.pc) = 0xD) :
    let w := m.wordAt m.pc
    let drawn := m.display.draw (m.spriteAt (n w).val) (m.v.get (x w)) (m.v.get (y w))
    m.cycle.outcome = .done ∧ m.cycle.machine.display = drawn.1 ∧
      ∀ k, m.cycle.machine.v.get k = if k = 0xF then flag drawn.2 else m.v.get k := by
  intro w drawn
  have fits : Fits w (.draw (x w) (y w) (n w)) := ⟨first, rfl, rfl, rfl⟩
  obtain ⟨done, machine⟩ := cycle_of_fits fits (by simp) (by simp)
  have drew : m.drawn (x w) (y w) (n w) = drawn := by
    rw [Machine.drawn, Memory.read_eq]
    rfl
  refine ⟨done, ?_, fun k => ?_⟩
  · rw [machine, ← drew, perform_eq]
    rfl
  · rw [machine, ← drew, perform_eq]
    simp only [vAfter, Table.get_set, eq_comm]
    rfl

/-- Drawing a sprite, whatever its length and wherever its origin, bit by bit never fails and turns over exactly the
pixels on which its set bits lie, the origin wrapped and the body cut off. It collides exactly if one of them was
on. The words that draw do so with the bytes from the index on, at coordinates that are read before the last
register tells of the collision, and without rows they draw nothing. -/
theorem sprites_turn_over_what_they_cover :
    (∀ (b : Bitmap) (sprite : List UInt8) (x y : UInt8),
      Checked.draw b sprite x y = .ok (b.draw sprite x y) ∧
      (∀ r < 32, ∀ c < 64, (b.draw sprite x y).1.pixel r c = (b.pixel r c ^^ Bitmap.covers sprite x y r c)) ∧
      ((b.draw sprite x y).2 = true ↔
        ∃ r < 32, ∃ c < 64, Bitmap.covers sprite x y r c = true ∧ b.pixel r c = true)) ∧
    ∀ m : Machine, head (m.wordAt m.pc) = 0xD →
      let w := m.wordAt m.pc
      let drawn := m.display.draw (m.spriteAt (n w).val) (m.v.get (x w)) (m.v.get (y w))
      m.cycle.outcome = .done ∧ m.cycle.machine.display = drawn.1 ∧
      (∀ k, m.cycle.machine.v.get k = if k = 0xF then (if drawn.2 then 1 else 0) else m.v.get k) ∧
      (n w = 0 → m.cycle.machine.display = m.display ∧ m.cycle.machine.v.get 0xF = 0) := by
  refine ⟨fun b sprite x y => ⟨?_, ?_, ?_⟩, fun m first => ?_⟩
  · exact Checked.draw_eq b sprite x y
  · exact fun r inside c within => b.pixel_draw sprite x y inside within
  · exact b.collides_iff sprite x y
  · intro w drawn
    obtain ⟨done, display, v⟩ := cycle_of_draw first
    refine ⟨done, display, v, fun noRows => ?_⟩
    have blank : drawn = (m.display, false) := by
      rw [← Bitmap.draw_nil m.display (m.v.get (x w)) (m.v.get (y w))]
      simp only [drawn, noRows]
      rfl
    constructor
    · exact display.trans (congrArg Prod.fst blank)
    · calc m.cycle.machine.v.get 0xF
        _ = flag drawn.2 := v 0xF
        _ = flag false := congrArg (fun d => flag d.2) blank
        _ = 0 := rfl

/-- A machine that draws over the lit corner of its display, with both coordinates in the last register and the bytes
on both ends of memory. -/
def atTheCorner : Machine :=
  { (fresh .default []).set 0xF 0x7F with
    index := 0xFFF, memory := ((Memory.fresh 0x50).load 0xFFF [0xC0, 0x80]).load programStart [0xDF, 0xF2],
    display := (Bitmap.blank.draw [0x80] 63 31).1 }

theorem draws_at_the_corner :
    atTheCorner.cycle.outcome = .done ∧ atTheCorner.cycle.machine.v.get 0xF = 1 ∧
      atTheCorner.cycle.machine.display.pixel 31 63 = false ∧ atTheCorner.cycle.machine.display.pixel 31 0 = false ∧
      atTheCorner.cycle.machine.display.pixel 0 63 = false := by
  have word : atTheCorner.wordAt atTheCorner.pc = 0xDFF2 := by decide +kernel
  obtain ⟨-, cycles⟩ := sprites_turn_over_what_they_cover
  obtain ⟨done, display, v, -⟩ := cycles atTheCorner (by rw [word]; rfl)
  rw [done, display, v, word]
  decide +kernel

end Machine
end Chip8
