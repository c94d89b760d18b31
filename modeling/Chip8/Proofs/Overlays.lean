import Chip8.Proofs.Sprites

/-!
# Sprites over one another

Sprites are drawn one after another, each at its own origin. A pixel ends up turned over if an odd number of them have
a bit on it (`Bitmap.pixel_placeAll`). So their order does not matter, and equal ones cancel out in pairs wherever they
stand.
-/

namespace Chip8

/-- A sprite and the coordinates of its upper left corner. -/
structure Placed where
  sprite : List UInt8
  x : UInt8
  y : UInt8
deriving DecidableEq

namespace Placed

/-- The same sprite with its origin on the display. -/
def wrapped (p : Placed) : Placed := { p with x := p.x % 64, y := p.y % 32 }

def covers (p : Placed) (r c : Nat) : Bool := Bitmap.covers p.sprite p.x p.y r c

theorem covers_wrapped (p : Placed) : p.wrapped.covers = p.covers := by
  funext r c
  simp [covers, wrapped, Bitmap.covers]

theorem covers_congr {p q : Placed} (same : p.wrapped = q.wrapped) : p.covers = q.covers := by
  rw [← covers_wrapped p, same, covers_wrapped]

theorem countP_wrapped (ps : List Placed) (r c : Nat) :
    (ps.map wrapped).countP (·.covers r c) = ps.countP (·.covers r c) := by
  simp [List.countP_map, Function.comp_def, covers_wrapped]

end Placed

/-- Draws sprites bit by bit, one after another. -/
def Checked.drawAll (b : Bitmap) (ps : List Placed) : Except Fault Bitmap :=
  ps.foldlM (fun b p => do return (← draw b p.sprite p.x p.y).1) b

namespace Bitmap
open Placed

def place (b : Bitmap) (p : Placed) : Bitmap := (b.draw p.sprite p.x p.y).1

/-- The display after sprites were drawn, one after another. -/
def placeAll (b : Bitmap) (ps : List Placed) : Bitmap := ps.foldl place b

theorem drawAll_eq (b : Bitmap) (ps : List Placed) : Checked.drawAll b ps = .ok (b.placeAll ps) := by
  induction ps generalizing b with
  | nil => rfl
  | cons p rest ih =>
    rw [Checked.drawAll, List.foldlM_cons, Checked.draw_eq]
    exact ih (b.place p)

variable {r c : Nat} (inside : r < 32) (within : c < 64)

include inside within

theorem pixel_place (b : Bitmap) (p : Placed) : (b.place p).pixel r c = (b.pixel r c ^^ p.covers r c) :=
  b.pixel_draw p.sprite p.x p.y inside within

theorem pixel_placeAll (b : Bitmap) (ps : List Placed) :
    (b.placeAll ps).pixel r c = (b.pixel r c ^^ decide (ps.countP (·.covers r c) % 2 = 1)) := by
  induction ps generalizing b with
  | nil => simp [placeAll]
  | cons p rest ih =>
    have first : (b.placeAll (p :: rest)).pixel r c = ((b.place p).placeAll rest).pixel r c := rfl
    rw [first, ih, pixel_place inside within, List.countP_cons]
    by_cases covered : p.covers r c = true
    · have turned (k : Nat) : decide ((k + 1) % 2 = 1) = !decide (k % 2 = 1) := by
        rw [← decide_not, decide_eq_decide]
        omega
      rw [if_pos covered, covered, turned, Bool.xor_assoc, Bool.true_xor]
    · simp [covered]

omit inside within

theorem placeAll_congr (b : Bitmap) {ps qs : List Placed}
    (same : ∀ r c, ps.countP (·.covers r c) % 2 = qs.countP (·.covers r c) % 2) : b.placeAll ps = b.placeAll qs := by
  apply ext_pixel
  intro r inside c within
  rw [pixel_placeAll inside within, pixel_placeAll inside within, same]

theorem placeAll_perm (b : Bitmap) {ps qs : List Placed} (perm : (ps.map wrapped).Perm (qs.map wrapped)) :
    b.placeAll ps = b.placeAll qs := by
  apply placeAll_congr
  intro r c
  rw [← countP_wrapped ps, ← countP_wrapped qs, perm.countP_eq]

theorem placeAll_remove_pair (b : Bitmap) (ps qs rs : List Placed) {p q : Placed} (same : p.wrapped = q.wrapped) :
    b.placeAll (ps ++ p :: qs ++ q :: rs) = b.placeAll (ps ++ qs ++ rs) := by
  apply placeAll_congr
  intro r c
  simp only [List.countP_append, List.countP_cons, covers_congr same]
  by_cases covered : q.covers r c = true
  · simp only [covered, if_true]
    omega
  · simp [covered]

theorem place_place (b : Bitmap) {p q : Placed} (same : p.wrapped = q.wrapped) : (b.place p).place q = b :=
  b.placeAll_remove_pair [] [] [] same

/-- What is drawn over the same sprite meets just the pixels that the first of the two switched on. -/
theorem collides_again_iff (b : Bitmap) {p q : Placed} (same : p.wrapped = q.wrapped) :
    ((b.place p).draw q.sprite q.x q.y).2 = true ↔
      ∃ r < 32, ∃ c < 64, b.pixel r c = false ∧ (b.place p).pixel r c = true := by
  have covers : ∀ r c, covers q.sprite q.x q.y r c = p.covers r c := fun r c =>
    (congrFun (congrFun (covers_congr same) r) c).symm
  simp only [collides_iff, covers]
  constructor
  · rintro ⟨r, inside, c, within, covered, on⟩
    refine ⟨r, inside, c, within, ?_, on⟩
    rw [pixel_place inside within, covered] at on
    simpa using on
  · rintro ⟨r, inside, c, within, off, on⟩
    refine ⟨r, inside, c, within, ?_, on⟩
    rw [pixel_place inside within, off] at on
    simpa using on

theorem unseen_draw (b : Bitmap) {p : Placed} (unseen : ∀ r < 32, ∀ c < 64, p.covers r c = false) :
    (b.draw p.sprite p.x p.y).2 = false := by
  rw [← Bool.not_eq_true, collides_iff]
  rintro ⟨r, inside, c, within, covered, -⟩
  rw [show covers p.sprite p.x p.y r c = false from unseen r inside c within] at covered
  cases covered

/-- Sprites that are drawn bit by bit, whatever their lengths and origins, leave a display that depends neither on
their order nor on two equal ones among them. The second of two equal ones in a row restores every pixel, and collides
exactly if the first had switched one on; neither collides if no bit of them is on the display. Sprites are equal
if their origins agree modulo the size of the display. -/
theorem sprites_cancel_in_pairs (b : Bitmap) :
    (∀ ps, Checked.drawAll b ps = .ok (b.placeAll ps)) ∧
    (∀ ps qs : List Placed, (ps.map wrapped).Perm (qs.map wrapped) → b.placeAll ps = b.placeAll qs) ∧
    (∀ (ps qs rs : List Placed) (p q : Placed), p.wrapped = q.wrapped →
      b.placeAll (ps ++ p :: qs ++ q :: rs) = b.placeAll (ps ++ qs ++ rs)) ∧
    ∀ p q : Placed, p.wrapped = q.wrapped →
      let first := b.draw p.sprite p.x p.y
      let second := first.1.draw q.sprite q.x q.y
      second.1 = b ∧
      (second.2 = true ↔ ∃ r < 32, ∃ c < 64, b.pixel r c = false ∧ first.1.pixel r c = true) ∧
      ((∀ r < 32, ∀ c < 64, p.covers r c = false) → first.2 = false ∧ second.2 = false) := by
  refine ⟨b.drawAll_eq, fun ps qs perm => b.placeAll_perm perm, ?_, ?_⟩
  · intro ps qs rs p q same
    exact b.placeAll_remove_pair ps qs rs same
  · intro p q same first second
    refine ⟨b.place_place same, b.collides_again_iff same, fun unseen => ⟨b.unseen_draw unseen, ?_⟩⟩
    rw [covers_congr same] at unseen
    exact first.1.unseen_draw unseen

/-- A sprite in the lower right corner, cut off on both sides. -/
def cornered : Placed := ⟨[0xFF, 0x81, 0xFF], 60, 30⟩

/-- The same sprite, its origin once around the display. -/
def corneredAgain : Placed := ⟨[0xFF, 0x81, 0xFF], 124, 62⟩

/-- A sprite all bits of which are cut off. -/
def cutOff : Placed := ⟨[0x0F], 60, 3⟩

theorem cornered_cancels :
    let row : Placed := ⟨[0xAA], 56, 31⟩
    blank.placeAll [cornered, row, corneredAgain] = blank.placeAll [row] ∧
      blank.placeAll [corneredAgain, row] = blank.placeAll [row, cornered] ∧
      ((blank.place cornered).draw corneredAgain.sprite corneredAgain.x corneredAgain.y) = (blank, true) ∧
      ((blank.place cutOff).draw cutOff.sprite cutOff.x cutOff.y) = (blank, false) := by
  intro row
  have same : cornered.wrapped = corneredAgain.wrapped := by decide
  obtain ⟨-, ordered, paired, twice⟩ := sprites_cancel_in_pairs blank
  obtain ⟨restored, collides, -⟩ := twice cornered corneredAgain same
  have lit : blank.pixel 30 60 = false ∧ (blank.place cornered).pixel 30 60 = true := by decide +kernel
  obtain ⟨stays, -, silent⟩ := twice cutOff cutOff rfl
  have unseen : ∀ r < 32, ∀ c < 64, cutOff.covers r c = false := by decide +kernel
  refine ⟨paired [] [row] [] _ _ same, ordered _ _ ?_, Prod.ext restored ?_, Prod.ext stays (silent unseen).2⟩
  · rw [List.map_cons, ← same]
    exact .swap _ _ _
  · exact collides.mpr ⟨30, by decide, 60, by decide, lit⟩

end Bitmap
end Chip8
