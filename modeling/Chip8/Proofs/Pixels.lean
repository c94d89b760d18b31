import Chip8.Bitmap

/-!
# Pixels

A bitmap is known by its pixels (`ext_pixel`). The ink of a sprite is on where a bit of the sprite lies
(`pixel_ink`), and two bitmaps overlap where both have a pixel on (`overlaps_iff`).
-/

namespace Chip8.Bitmap

theorem pixel_eq (b : Bitmap) {r c : Nat} (inside : r < 32) (within : c < 64) :
    b.pixel r c = b.rows[r].getMsbD c := by
  simp only [pixel, Fin.getElem_fin, Fin.val_ofNat, Nat.mod_eq_of_lt inside, Nat.mod_eq_of_lt within]

/-- Two bitmaps with the same pixels are the same. -/
theorem ext_pixel {a b : Bitmap} (same : ∀ r < 32, ∀ c < 64, a.pixel r c = b.pixel r c) : a = b := by
  rcases a with ⟨rows⟩
  rcases b with ⟨others⟩
  congr
  apply Vector.ext
  intro r inside
  apply BitVec.eq_of_getMsbD_eq
  intro c within
  simpa only [pixel_eq _ inside within] using same r inside c within

/-- The bits of a sprite's row lie from its left edge on, as far as the right edge of the display. -/
theorem getMsbD_inkRow (column : Nat) (row : UInt8) {c : Nat} (within : c < 64) :
    (inkRow column row).getMsbD c = (decide (column ≤ c) && row.toBitVec.getMsbD (c - column)) := by
  have bits : (row.toBitVec ++ 0#56).getMsbD (c - column) = row.toBitVec.getMsbD (c - column) := by
    rw [BitVec.getMsbD_append]
    split
    · rw [BitVec.getMsbD_zero, BitVec.getMsbD_of_ge _ _ (by assumption)]
    · rfl
  rw [inkRow, BitVec.getMsbD_ushiftRight, bits]
  by_cases left : c < column
  · simp [left, Nat.not_le.mpr left]
  · simp [within, left, Nat.not_lt.mp left]

/-- A pixel is covered by the bit of the sprite that lies on it, if there is one. -/
theorem pixel_ink (sprite : List UInt8) (x y : UInt8) {r c : Nat} (inside : r < 32) (within : c < 64) :
    (ink sprite x y).pixel r c = (decide (y.toNat % 32 ≤ r) && decide (x.toNat % 64 ≤ c) &&
      (sprite.getD (r - y.toNat % 32) 0).toBitVec.getMsbD (c - x.toNat % 64)) := by
  rw [pixel_eq _ inside within, ink, Vector.getElem_ofFn]
  by_cases above : y.toNat % 32 ≤ r
  · rw [if_pos above, getMsbD_inkRow _ _ within, decide_eq_true above, Bool.true_and]
  · simp [above]

/-- Two bitmaps overlap if some pixel is on in both. -/
theorem overlaps_iff (b i : Bitmap) :
    b.overlaps i = true ↔ ∃ r < 32, ∃ c < 64, b.pixel r c = true ∧ i.pixel r c = true := by
  rw [overlaps, Vector.any_eq_true]
  constructor
  · rintro ⟨r, inside, on⟩
    rw [Vector.getElem_zipWith, bne_iff_ne] at on
    apply Classical.byContradiction
    intro apart
    apply on
    apply BitVec.eq_of_getMsbD_eq
    intro c within
    have off : ¬ (b.pixel r c = true ∧ i.pixel r c = true) := fun both => apart ⟨r, inside, c, within, both⟩
    rw [pixel_eq _ inside within, pixel_eq _ inside within, ← Bool.and_eq_true, Bool.not_eq_true] at off
    rw [BitVec.getMsbD_and, BitVec.getMsbD_zero, off]
  · rintro ⟨r, inside, c, within, onB, onI⟩
    rw [pixel_eq _ inside within] at onB onI
    refine ⟨r, inside, bne_iff_ne.mpr fun zero => ?_⟩
    rw [Vector.getElem_zipWith] at zero
    have both : (b.rows[r] &&& i.rows[r]).getMsbD c = true := by rw [BitVec.getMsbD_and, onB, onI]; rfl
    rw [zero, BitVec.getMsbD_zero] at both
    cases both

/-- A sprite without rows changes nothing. -/
theorem draw_nil (b : Bitmap) (x y : UInt8) : b.draw [] x y = (b, false) := by
  have dry : ∀ r < 32, ∀ c < 64, (ink [] x y).pixel r c = false := by
    intro r inside c within
    rw [pixel_ink _ _ _ inside within]
    simp
  have kept : b.flip (ink [] x y) = b := by
    apply ext_pixel
    intro r inside c within
    rw [pixel_flip, dry r inside c within, Bool.xor_false]
  have apart : b.overlaps (ink [] x y) = false := by
    rw [← Bool.not_eq_true, overlaps_iff]
    rintro ⟨r, inside, c, within, -, on⟩
    rw [dry r inside c within] at on
    cases on
  rw [draw, kept, apart]

end Chip8.Bitmap
