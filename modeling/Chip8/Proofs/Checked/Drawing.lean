import Chip8.Proofs.Checked.Operations
import Chip8.Proofs.Pixels

/-!
# Checked drawing

A sprite is drawn bit by bit. What was drawn at any moment is a sprite as well: the rows so far and the leading
bits of the next one. So the checked loops go through the results of `Bitmap.draw` (`drawBit_eq`), and end at the
one for the whole sprite, as neither the rows nor the bits that they leave out would lie on the display
(`draw_eq`).
-/

namespace Chip8

namespace Bitmap

/-- Turns one pixel over. -/
def turn (b : Bitmap) (r : Fin 32) (c : Fin 64) : Bitmap :=
  ⟨b.rows.set r.val (b.rows[r] ^^^ BitVec.twoPow 64 (63 - c.val)) r.isLt⟩

theorem pixel_turn (b : Bitmap) (r : Fin 32) (c : Fin 64) {y x : Nat} (inside : y < 32) (within : x < 64) :
    (b.turn r c).pixel y x = (b.pixel y x ^^ (decide (y = r.val) && decide (x = c.val))) := by
  have column : (BitVec.twoPow 64 (63 - c.val)).getMsbD x = decide (x = c.val) := by
    rw [BitVec.getMsbD_eq_getLsbD, BitVec.getLsbD_twoPow]
    have := c.isLt
    simp only [within, decide_true, Bool.true_and]
    by_cases same : x = c.val
    · simp [same]; omega
    · simp [same]; omega
  rw [pixel_eq _ inside within, pixel_eq _ inside within, turn, Vector.getElem_set]
  split
  case isTrue same =>
    subst same
    rw [BitVec.getMsbD_xor, column]
    simp
  case isFalse apart => simp [Ne.symm apart]

/-- With one more pixel of ink, a bitmap has that pixel turned over and collides there if it was on. -/
theorem flip_and_overlaps_of_more {b i j : Bitmap} {r : Fin 32} {c : Fin 64} (off : i.pixel r c = false)
    (more : ∀ y < 32, ∀ x < 64, j.pixel y x = (i.pixel y x || (decide (y = r.val) && decide (x = c.val)))) :
    b.flip j = (b.flip i).turn r c ∧ b.overlaps j = (b.overlaps i || b.pixel r c) := by
  constructor
  · apply ext_pixel
    intro y inside x within
    rw [pixel_turn _ _ _ inside within, pixel_flip, pixel_flip, more y inside x within]
    by_cases here : y = r.val ∧ x = c.val
    · rw [here.1, here.2, off]
      simp
    · have elsewhere : (decide (y = r.val) && decide (x = c.val)) = false := by simpa using here
      simp [elsewhere]
  · rw [Bool.eq_iff_iff, Bool.or_eq_true, overlaps_iff, overlaps_iff]
    constructor
    · rintro ⟨y, inside, x, within, onB, onJ⟩
      rw [more y inside x within, Bool.or_eq_true, Bool.and_eq_true, decide_eq_true_eq, decide_eq_true_eq] at onJ
      rcases onJ with onI | ⟨rfl, rfl⟩
      · exact .inl ⟨y, inside, x, within, onB, onI⟩
      · exact .inr onB
    · rintro (⟨y, inside, x, within, onB, onI⟩ | onB)
      · exact ⟨y, inside, x, within, onB, by rw [more y inside x within, onI]; rfl⟩
      · exact ⟨r, r.isLt, c, c.isLt, onB, by rw [more r r.isLt c c.isLt]; simp⟩

end Bitmap

namespace Checked

/-- Draws one bit of a sprite's row and notes whether it switched a pixel off. -/
def drawBit (byte : UInt8) (row column : Nat) (drawn : Bitmap × Bool) (bit : Nat) :
    Except Fault (Bitmap × Bool) := do
  let mask ← shiftRight8 0x80 bit
  if byte &&& mask = 0 then return drawn
  else
    let r ← place 32 row
    let c ← place 64 (← add column bit)
    let turned := drawn.1.turn r c
    return (turned, drawn.2 || !turned.pixel r c)

/-- Draws rows of a sprite, each with its leading bits. -/
def drawRows (top column bits : Nat) (drawn : Bitmap × Bool) (row : Nat) : List UInt8 → Except Fault (Bitmap × Bool)
  | [] => return drawn
  | byte :: rest => do
    let y ← add top row
    let drawn ← (List.range bits).foldlM (drawBit byte y column) drawn
    drawRows top column bits drawn (← add row 1) rest

/-- Draws a sprite and says whether it switched a pixel off. -/
def draw (b : Bitmap) (sprite : List UInt8) (x y : UInt8) : Except Fault (Bitmap × Bool) := do
  let column := x.toNat % 64
  let top := y.toNat % 32
  let rows := min sprite.length (← sub 32 top)
  let bits := min 8 (← sub 64 column)
  drawRows top column bits (b, false) 0 (sprite.take rows)

/-! ## The leading bits of a row -/

/-- A byte without the bits behind so many leading ones. -/
def leading (n : Nat) (byte : UInt8) : UInt8 := ⟨byte.toBitVec &&& BitVec.allOnes 8 <<< (8 - n)⟩

theorem getMsbD_leading (n : Nat) (byte : UInt8) (k : Nat) :
    (leading n byte).toBitVec.getMsbD k = (decide (k < n) && byte.toBitVec.getMsbD k) := by
  simp only [leading, BitVec.getMsbD_and, BitVec.getMsbD_shiftLeft, BitVec.getMsbD_allOnes]
  by_cases inside : k < 8
  · by_cases before : k < n
    · have kept : k + (8 - n) < 8 := by omega
      simp [before, kept]
    · have lost : ¬ k + (8 - n) < 8 := by omega
      simp [before, lost]
  · rw [BitVec.getMsbD_of_ge _ _ (Nat.not_lt.mp inside)]
    simp

theorem leading_zero (byte : UInt8) : leading 0 byte = 0 := by
  apply UInt8.toBitVec_inj.mp
  apply BitVec.eq_of_getMsbD_eq
  intro k inside
  rw [getMsbD_leading]
  simp

theorem leading_succ_of_clear {n : Nat} {byte : UInt8} (clear : byte.toBitVec.getMsbD n = false) :
    leading (n + 1) byte = leading n byte := by
  apply UInt8.toBitVec_inj.mp
  apply BitVec.eq_of_getMsbD_eq
  intro k inside
  rw [getMsbD_leading, getMsbD_leading]
  by_cases last : k = n
  · rw [last, clear]
    simp
  · have same : k < n + 1 ↔ k < n := by omega
    simp [same]

/-- The mask of a bit tells whether it is set. -/
theorem and_mask_eq_zero_iff (byte : UInt8) {bit : Nat} (inside : bit < 8) :
    byte &&& 0x80 >>> UInt8.ofNat bit = 0 ↔ byte.toBitVec.getMsbD bit = false := by
  have mask : ∀ k : Fin 8, (0x80 >>> UInt8.ofNat k.val : UInt8).toBitVec = BitVec.twoPow 8 (7 - k.val) := by decide
  have nonzero : ∀ k : Fin 8, BitVec.twoPow 8 (7 - k.val) ≠ 0#8 := by decide
  rw [← UInt8.toBitVec_inj, UInt8.toBitVec_and, mask ⟨bit, inside⟩, BitVec.and_twoPow, BitVec.getMsbD_eq_getLsbD]
  simp only [inside, decide_true, Bool.true_and, Nat.reduceSub]
  cases set : byte.toBitVec.getLsbD (7 - bit) with
  | true => simpa using nonzero ⟨bit, inside⟩
  | false => simp

/-! ## The ink of the rows so far -/

theorem getD_concat (sprite : List UInt8) (byte : UInt8) (k : Nat) :
    (sprite ++ [byte]).getD k 0 = if k = sprite.length then byte else sprite.getD k 0 := by
  simp only [List.getD_eq_getElem?_getD]
  rcases Nat.lt_trichotomy k sprite.length with before | here | behind
  · rw [List.getElem?_append_left before, if_neg (by omega)]
  · simp [here]
  · rw [List.getElem?_eq_none (by simp; omega), List.getElem?_eq_none (by omega), if_neg (by omega)]

/-- One more row puts ink on the row of the display below those that have ink. -/
theorem pixel_ink_concat (sprite : List UInt8) (byte : UInt8) (x y : UInt8) {r c : Nat} (inside : r < 32)
    (within : c < 64) :
    (Bitmap.ink (sprite ++ [byte]) x y).pixel r c =
      if r = y.toNat % 32 + sprite.length then
        decide (x.toNat % 64 ≤ c) && byte.toBitVec.getMsbD (c - x.toNat % 64)
      else (Bitmap.ink sprite x y).pixel r c := by
  rw [Bitmap.pixel_ink _ _ _ inside within, Bitmap.pixel_ink _ _ _ inside within, getD_concat]
  by_cases above : y.toNat % 32 ≤ r
  · have row : r - y.toNat % 32 = sprite.length ↔ r = y.toNat % 32 + sprite.length := by omega
    simp only [row, above, decide_true, Bool.true_and]
    split <;> rfl
  · rw [if_neg (by omega : ¬ r = y.toNat % 32 + sprite.length)]
    simp [above]

theorem ink_concat_zero (sprite : List UInt8) (x y : UInt8) :
    Bitmap.ink (sprite ++ [0]) x y = Bitmap.ink sprite x y := by
  apply Bitmap.ext_pixel
  intro r inside c within
  rw [Bitmap.pixel_ink _ _ _ inside within, Bitmap.pixel_ink _ _ _ inside within, getD_concat]
  split
  case isTrue last => simp [last]
  case isFalse => rfl

/-- The bits of a row that pass the right edge leave no ink. -/
theorem ink_concat_leading (sprite : List UInt8) (byte : UInt8) (x y : UInt8) :
    Bitmap.ink (sprite ++ [leading (min 8 (64 - x.toNat % 64)) byte]) x y = Bitmap.ink (sprite ++ [byte]) x y := by
  apply Bitmap.ext_pixel
  intro r inside c within
  rw [pixel_ink_concat _ _ _ _ inside within, pixel_ink_concat _ _ _ _ inside within, getMsbD_leading]
  by_cases bit : c - x.toNat % 64 < 8
  · by_cases right : x.toNat % 64 ≤ c
    · have kept : c - x.toNat % 64 < min 8 (64 - x.toNat % 64) := by omega
      simp only [kept, decide_true, Bool.true_and]
    · simp [right]
  · rw [BitVec.getMsbD_of_ge _ _ (Nat.not_lt.mp bit)]
    simp

/-- The rows of a sprite that pass the lower edge leave no ink. -/
theorem ink_take (sprite : List UInt8) (x y : UInt8) :
    Bitmap.ink (sprite.take (min sprite.length (32 - y.toNat % 32))) x y = Bitmap.ink sprite x y := by
  apply Bitmap.ext_pixel
  intro r inside c within
  rw [Bitmap.pixel_ink _ _ _ inside within, Bitmap.pixel_ink _ _ _ inside within]
  by_cases above : y.toNat % 32 ≤ r
  · have row : (sprite.take (min sprite.length (32 - y.toNat % 32))).getD (r - y.toNat % 32) 0 =
        sprite.getD (r - y.toNat % 32) 0 := by
      have shown : r - y.toNat % 32 < 32 - y.toNat % 32 := by omega
      simp only [List.getD_eq_getElem?_getD, List.getElem?_take]
      split
      · rfl
      · rw [List.getElem?_eq_none (by omega)]
    rw [row]
  · simp [above]

/-! ## The loops -/

/-- Each pass over the bits of a row draws one more of its leading bits. -/
theorem drawBit_eq (b : Bitmap) (sprite : List UInt8) (byte : UInt8) (x y : UInt8) {bit : Nat}
    (fits : y.toNat % 32 + sprite.length < 32) (shown : bit < min 8 (64 - x.toNat % 64)) :
    drawBit byte (y.toNat % 32 + sprite.length) (x.toNat % 64) (b.draw (sprite ++ [leading bit byte]) x y) bit =
      .ok (b.draw (sprite ++ [leading (bit + 1) byte]) x y) := by
  have narrow : bit < 8 := by omega
  have within : x.toNat % 64 + bit < 64 := by omega
  rw [drawBit, shiftRight8_eq narrow, ok_bind]
  cases set : byte.toBitVec.getMsbD bit with
  | false =>
    rw [if_pos ((and_mask_eq_zero_iff byte narrow).mpr set), leading_succ_of_clear set]
    rfl
  | true =>
    have marked : byte &&& 0x80 >>> UInt8.ofNat bit ≠ 0 := by
      rw [ne_eq, and_mask_eq_zero_iff byte narrow, set]
      decide
    rw [if_neg marked, place_eq fits, ok_bind, add_eq (by omega), ok_bind, place_eq within, ok_bind]
    -- The bits so far end in front of this pixel, so that it has no ink yet and turning it over draws it.
    have off : (Bitmap.ink (sprite ++ [leading bit byte]) x y).pixel (y.toNat % 32 + sprite.length)
        (x.toNat % 64 + bit) = false := by
      rw [pixel_ink_concat _ _ _ _ fits within, if_pos rfl, getMsbD_leading]
      simp
    have more : ∀ r < 32, ∀ c < 64, (Bitmap.ink (sprite ++ [leading (bit + 1) byte]) x y).pixel r c =
        ((Bitmap.ink (sprite ++ [leading bit byte]) x y).pixel r c ||
          (decide (r = y.toNat % 32 + sprite.length) && decide (c = x.toNat % 64 + bit))) := by
      intro r inside c within
      rw [pixel_ink_concat _ _ _ _ inside within, pixel_ink_concat _ _ _ _ inside within, getMsbD_leading,
        getMsbD_leading]
      by_cases row : r = y.toNat % 32 + sprite.length
      · by_cases here : c = x.toNat % 64 + bit
        · simp [row, here, set]
        · by_cases right : x.toNat % 64 ≤ c
          · have same : c - x.toNat % 64 < bit + 1 ↔ c - x.toNat % 64 < bit := by omega
            simp [row, here, same]
          · simp [row, here, right]
      · simp [row]
    obtain ⟨flipped, collides⟩ := Bitmap.flip_and_overlaps_of_more (b := b) (r := ⟨_, fits⟩) (c := ⟨_, within⟩) off more
    simp only [Bitmap.draw, flipped, collides, Bitmap.pixel_turn _ _ _ fits within, Bitmap.pixel_flip, off]
    simp

/-- The rows of a sprite are drawn below those that were drawn before. -/
theorem drawRows_eq (b : Bitmap) (x y : UInt8) (before rest : List UInt8)
    (fits : y.toNat % 32 + before.length + rest.length ≤ 32) :
    drawRows (y.toNat % 32) (x.toNat % 64) (min 8 (64 - x.toNat % 64)) (b.draw before x y) before.length rest =
      .ok (b.draw (before ++ rest) x y) := by
  -- A row that was drawn moves from the rest to the rows before.
  induction rest generalizing before with
  | nil => simp [drawRows]
  | cons byte rest ih =>
    rw [List.length_cons] at fits
    have bits := loop_eq (f := drawBit byte (y.toNat % 32 + before.length) (x.toNat % 64))
      (fun k => b.draw (before ++ [leading k byte]) x y) (n := min 8 (64 - x.toNat % 64))
      (fun bit shown => drawBit_eq b before byte x y (by omega) shown)
    have none : b.draw (before ++ [leading 0 byte]) x y = b.draw before x y := by
      rw [leading_zero, Bitmap.draw, Bitmap.draw, ink_concat_zero]
    have all : b.draw (before ++ [leading (min 8 (64 - x.toNat % 64)) byte]) x y = b.draw (before ++ [byte]) x y := by
      rw [Bitmap.draw, Bitmap.draw, ink_concat_leading]
    rw [none, all] at bits
    rw [drawRows, add_eq (by omega), ok_bind, bits, ok_bind, add_eq (by omega), ok_bind]
    have later := ih (before ++ [byte]) (by rw [List.length_append, List.length_singleton]; omega)
    rwa [List.length_append, List.length_singleton, List.append_assoc, List.singleton_append] at later

/-- Drawing never fails, whatever the sprite and wherever it is drawn. -/
theorem draw_eq (b : Bitmap) (sprite : List UInt8) (x y : UInt8) : draw b sprite x y = .ok (b.draw sprite x y) := by
  have top : y.toNat % 32 ≤ 32 := by omega
  have left : x.toNat % 64 ≤ 64 := by omega
  rw [draw, sub_eq top, ok_bind, sub_eq left, ok_bind, ← b.draw_nil x y]
  have rows := drawRows_eq b x y [] (sprite.take (min sprite.length (32 - y.toNat % 32)))
    (by rw [List.length_take, List.length_nil]; omega)
  rw [List.length_nil, List.nil_append] at rows
  rw [rows, Bitmap.draw, ink_take, Bitmap.draw]

end Checked
end Chip8
