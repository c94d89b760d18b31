import Chip8.Font

/-!
# Memory

Four kilobytes, with the glyphs at a base address. Every address is taken modulo the size, so a read or
a write never fails.
-/

namespace Chip8

/-- Bytes of memory and the address of the glyphs, which is kept as it was given. -/
structure Memory where
  bytes : Vector UInt8 4096
  fontBase : UInt16

namespace Memory

/-- Number of bytes. -/
def size : Nat := 4096

/-- The place that an address names. -/
def slot (a : UInt16) : Fin 4096 := ⟨a.toNat % 4096, Nat.mod_lt _ (by decide)⟩

/-- The byte at an address. -/
def fetch (m : Memory) (a : UInt16) : UInt8 := m.bytes[slot a]

/-- Puts a byte at an address. -/
def write (m : Memory) (a : UInt16) (b : UInt8) : Memory :=
  match m with
  | ⟨bytes, base⟩ => ⟨bytes.set (slot a).val b (slot a).isLt, base⟩

/-- Puts bytes at an address and those after it, each over what an earlier one left there. -/
def load (m : Memory) (origin : UInt16) : List UInt8 → Memory
  | [] => m
  | b :: rest => (m.write origin b).load (origin + 1) rest

/-- The bytes at an address and those after it. -/
def read (m : Memory) (origin : UInt16) (count : Nat) : List UInt8 :=
  (List.range count).map fun j => m.fetch (origin + UInt16.ofNat j)

/-- Memory that holds only the glyphs. -/
def fresh (fontBase : UInt16) : Memory :=
  Memory.load ⟨Vector.replicate 4096 0, fontBase⟩ fontBase Font.table

/-- Clears memory down to its glyphs. -/
def reset (m : Memory) : Memory := fresh m.fontBase

/-! ## Reading after writing -/

@[simp] theorem fontBase_write (m : Memory) (a : UInt16) (b : UInt8) : (m.write a b).fontBase = m.fontBase := rfl

/-- A write is seen at the addresses that name its place, and nowhere else. -/
theorem fetch_write (m : Memory) (a c : UInt16) (b : UInt8) :
    (m.write a b).fetch c = if slot a = slot c then b else m.fetch c := by
  simp [write, fetch, Vector.getElem_set, Fin.ext_iff]

@[simp] theorem fontBase_load (m : Memory) (a : UInt16) (bs : List UInt8) : (m.load a bs).fontBase = m.fontBase := by
  induction bs generalizing m a with
  | nil => rfl
  | cons b rest ih => simp [load, ih]

end Memory
end Chip8
