import Chip8.Memory
import Chip8.Table

/-!
# Places in memory

An address and those behind it name places modulo the size of memory, also where the sixteen bits of an address
run over (`slot_add_ofNat`). A memory is known by the bytes in its places.
-/

namespace Chip8.Memory

theorem slot_add_ofNat (a : UInt16) (j : Nat) : slot (a + UInt16.ofNat j) = Fin.ofNat 4096 (a.toNat + j) := by
  simp only [Fin.ext_iff, slot, Fin.val_ofNat, UInt16.toNat_add, UInt16.toNat_ofNat']
  omega

/-- The bytes from an address on, place by place. -/
theorem read_eq (m : Memory) (a : UInt16) (count : Nat) :
    m.read a count = (List.range count).map fun j => m.bytes.get (Fin.ofNat 4096 (a.toNat + j)) := by
  apply List.map_congr_left
  intro j _
  rw [← slot_add_ofNat]
  rfl

theorem get_bytes_write (m : Memory) (a : UInt16) (b : UInt8) (place : Fin 4096) :
    (m.write a b).bytes.get place = if slot a = place then b else m.bytes.get place :=
  Table.get_set m.bytes (slot a) place b (slot a).isLt

/-- Loading leaves alone all places behind which no byte was loaded. -/
theorem get_bytes_load_outside {m : Memory} {origin : UInt16} {bs : List UInt8} {place : Fin 4096}
    (outside : ∀ j < bs.length, place.val ≠ (origin.toNat + j) % 4096) :
    (m.load origin bs).bytes.get place = m.bytes.get place := by
  induction bs generalizing m origin with
  | nil => rfl
  | cons b rest ih =>
    have first : slot origin ≠ place := by
      intro here
      exact outside 0 (Nat.zero_lt_succ _) (by rw [← here]; rfl)
    have later : ∀ j < rest.length, place.val ≠ ((origin + 1).toNat + j) % 4096 := by
      intro j below here
      refine outside (j + 1) (Nat.succ_lt_succ below) ?_
      simp only [here, UInt16.toNat_add, UInt16.reduceToNat]
      omega
    rw [load, ih later, get_bytes_write, if_neg first]

end Chip8.Memory
