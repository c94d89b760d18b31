/-!
# The display bitmap

Thirty-two rows of sixty-four pixels. A sprite is drawn by exclusive or with its ink, the pixels that it
covers; it collides where ink falls on a lit pixel. The origin of a sprite wraps around the display, its
body is cut off at the right and lower edges.
-/

namespace Chip8

/-- The rows from the top; the leftmost pixel of a row is its most significant bit. -/
structure Bitmap where
  rows : Vector (BitVec 64) 32
deriving DecidableEq

namespace Bitmap

/-- Pixels in a row. -/
def width : Nat := 64

/-- Number of rows. -/
def height : Nat := 32

/-- All pixels are off. -/
def blank : Bitmap := ⟨Vector.replicate 32 0#64⟩

/-- The state of a pixel, its coordinates taken modulo the size. -/
def pixel (b : Bitmap) (y x : Nat) : Bool := b.rows[Fin.ofNat 32 y].getMsbD (x % 64)

/-- One row of a sprite, its left edge at a column; what passes the right edge is lost. -/
def inkRow (column : Nat) (row : UInt8) : BitVec 64 := (row.toBitVec ++ 0#56) >>> column

/-- The pixels that a sprite covers with its upper left corner at given coordinates. -/
def ink (sprite : List UInt8) (x y : UInt8) : Bitmap :=
  ⟨Vector.ofFn fun r =>
    if y.toNat % 32 ≤ r.val then inkRow (x.toNat % 64) (sprite.getD (r.val - y.toNat % 32) 0) else 0#64⟩

/-- Turns over the pixels of the first bitmap that are on in the second. -/
def flip (b i : Bitmap) : Bitmap := ⟨Vector.zipWith (· ^^^ ·) b.rows i.rows⟩

/-- Whether some pixel is on in both bitmaps. -/
def overlaps (b i : Bitmap) : Bool := (Vector.zipWith (· &&& ·) b.rows i.rows).any (· != 0#64)

/-- Draws a sprite and says whether it switched a pixel off. -/
def draw (b : Bitmap) (sprite : List UInt8) (x y : UInt8) : Bitmap × Bool :=
  let i := ink sprite x y
  (b.flip i, b.overlaps i)

/-! ## Pixels -/

@[simp] theorem pixel_blank (y x : Nat) : blank.pixel y x = false := by
  simp [blank, pixel]

/-- Flipping is exclusive or at every pixel. -/
theorem pixel_flip (b i : Bitmap) (y x : Nat) : (b.flip i).pixel y x = (b.pixel y x ^^ i.pixel y x) := by
  simp [flip, pixel]

end Bitmap
end Chip8
