import Chip8.Proofs.DataFlow
import Chip8.Proofs.Stores

/-!
# Registers in memory

Storing registers puts them into the places from the index on, one register into each (`Machine.get_store`), and
filling takes them from there (`Machine.get_fill`). Both count places alike, also where the index runs over the end
of memory or of its sixteen bits, so each undoes the other.
-/

namespace Chip8.Machine

/-- The place in memory so many addresses behind the index. -/
def placeAt (m : Machine) (j : Nat) : Fin 4096 := ⟨(m.index.toNat + j) % 4096, Nat.mod_lt _ (by decide)⟩

theorem placeAt_eq (m : Machine) (j : Nat) : m.placeAt j = Fin.ofNat 4096 (m.index.toNat + j) := rfl

theorem placeAt_congr {m n : Machine} (same : m.index % 4096 = n.index % 4096) (j : Nat) :
    m.placeAt j = n.placeAt j := by
  have places : m.index.toNat % 4096 = n.index.toNat % 4096 := by
    simpa using congrArg UInt16.toNat same
  simp only [placeAt, Fin.ext_iff]
  omega

/-! ## Storing -/

theorem length_stored (m : Machine) (x : Digit) : (m.v.toList.take (x.val + 1)).length = x.val + 1 := by
  have bound := x.inside
  rw [List.length_take, Vector.length_toList]
  omega

theorem memory_store (m : Machine) (x : Digit) :
    (m.perform (.store x)).memory = m.memory.load m.index (m.v.toList.take (x.val + 1)) := rfl

theorem get_store (m : Machine) {x j : Digit} (below : j ≤ x) :
    (m.perform (.store x)).memory.bytes.get (m.placeAt j.val) = m.v.get j := by
  have length := m.length_stored x
  have bound := x.inside
  have within : j.val ≤ x.val := below
  have short : (m.v.toList.take (x.val + 1)).length ≤ 4096 := by omega
  rw [memory_store, placeAt_eq, Memory.get_bytes_load short m.memory (by omega), List.getElem_take,
    Vector.getElem_toList, Table.get_eq]

theorem get_store_outside (m : Machine) {x : Digit} {place : Fin 4096}
    (outside : ∀ j ≤ x, place ≠ m.placeAt j.val) :
    (m.perform (.store x)).memory.bytes.get place = m.memory.bytes.get place := by
  rw [memory_store]
  apply Memory.get_bytes_load_outside
  intro j below here
  rw [length_stored] at below
  have bound := x.inside
  have within : (⟨j, by omega⟩ : Digit) ≤ x := Nat.le_of_lt_succ below
  exact outside _ within (Fin.ext here)

/-! ## Filling -/

theorem index_fill (m : Machine) (x : Digit) : (m.perform (.fill x)).index = m.index := by
  rw [perform_eq]
  rfl

theorem memory_fill (m : Machine) (x : Digit) : (m.perform (.fill x)).memory = m.memory := by
  rw [perform_eq]
  rfl

theorem get_fill (m : Machine) (x k : Digit) :
    (m.perform (.fill x)).v.get k = if k ≤ x then m.memory.bytes.get (m.placeAt k.val) else m.v.get k := by
  rw [placeAt_eq, ← Memory.slot_add_ofNat]
  exact Table.get_ofFn _ k

/-- Filling takes back what was stored, from an index that names the same place. -/
theorem get_fill_of_stored {m n : Machine} {x y : Digit}
    (kept : n.memory.bytes = (m.perform (.store x)).memory.bytes) (same : n.index % 4096 = m.index % 4096)
    (fewer : y ≤ x) (k : Digit) : (n.perform (.fill y)).v.get k = if k ≤ y then m.v.get k else n.v.get k := by
  rw [get_fill, kept, placeAt_congr same]
  by_cases below : k ≤ y
  · rw [if_pos below, if_pos below, get_store m (Fin.le_trans below fewer)]
  · rw [if_neg below, if_neg below]

/-- Storing what was just taken from memory puts back what is there. -/
theorem bytes_store_of_filled (m : Machine) (x : Digit) :
    ((m.perform (.fill x)).perform (.store x)).memory.bytes = m.memory.bytes := by
  have places : ∀ j, (m.perform (.fill x)).placeAt j = m.placeAt j :=
    placeAt_congr (by rw [index_fill])
  apply Table.ext_get
  intro place
  -- A register was taken from this place and is put back, or storing leaves the place alone.
  by_cases taken : ∃ j ≤ x, place = m.placeAt j.val
  · obtain ⟨j, below, rfl⟩ := taken
    calc ((m.perform (.fill x)).perform (.store x)).memory.bytes.get (m.placeAt j.val)
      _ = (m.perform (.fill x)).v.get j := by rw [← places, get_store _ below]
      _ = m.memory.bytes.get (m.placeAt j.val) := by rw [get_fill, if_pos below]
  · have outside : ∀ j ≤ x, place ≠ (m.perform (.fill x)).placeAt j.val := by
      intro j below here
      exact taken ⟨j, below, here.trans (places j.val)⟩
    rw [get_store_outside _ outside, memory_fill]

/-- Stored registers come back. Storing puts each of them into its place from the index on and changes no other byte.
Whatever becomes of the machine then, as long as memory keeps these bytes and the index comes to the same place, filling
takes them back, or fewer of them, and leaves the other registers alone. To store what was just taken from memory
changes no byte. Neither moves the index, and the cycles that meet these instructions do just that. -/
theorem stored_registers_come_back (m : Machine) (x : Digit) :
    let stored := m.perform (.store x)
    (∀ j ≤ x, stored.memory.bytes.get (m.placeAt j.val) = m.v.get j) ∧
    (∀ place, (∀ j ≤ x, place ≠ m.placeAt j.val) →
      stored.memory.bytes.get place = m.memory.bytes.get place) ∧
    (∀ n : Machine, n.memory.bytes = stored.memory.bytes → n.index % 4096 = m.index % 4096 → ∀ y ≤ x, ∀ k,
      (n.perform (.fill y)).v.get k = if k ≤ y then m.v.get k else n.v.get k) ∧
    ((m.perform (.fill x)).perform (.store x)).memory.bytes = m.memory.bytes ∧
    stored.index = m.index ∧ (m.perform (.fill x)).index = m.index ∧
    (m.next = .store x ∨ m.next = .fill x →
      m.cycle.outcome = .done ∧ m.cycle.machine.SameData (m.perform m.next)) := by
  intro stored
  refine ⟨fun j below => m.get_store below, fun place outside => m.get_store_outside outside, ?_, ?_, rfl,
    m.index_fill x, ?_⟩
  · intro n kept same y fewer k
    exact get_fill_of_stored kept same fewer k
  · exact m.bytes_store_of_filled x
  · rintro (stores | fills)
    · exact cycle_of_onData (by rw [stores]; rfl)
    · exact cycle_of_onData (by rw [fills]; rfl)

/-- A machine that stores four registers, its index two addresses before the end of all addresses. -/
def storingAtTheEnd : Machine :=
  { fresh .default [] with
    index := 0xFFFE, v := Vector.ofFn fun j => 100 + Digit.toByte j,
    memory := (Memory.fresh 0x50).load programStart [0xF3, 0x55] }

theorem registers_come_back_atTheEnd :
    let stored := storingAtTheEnd.perform (.store 3)
    let n := { stored with v := Vector.replicate 16 0, index := 0x0FFE }
    stored.memory.bytes.get 0x001 = 103 ∧ stored.memory.bytes.get 0x002 = 0 ∧
      (n.perform (.fill 2)).v.get 2 = 102 ∧ (n.perform (.fill 2)).v.get 3 = 0 ∧
      storingAtTheEnd.cycle.outcome = .done := by
  intro stored n
  have next : storingAtTheEnd.next = .store 3 := by decide +kernel
  have apart : ∀ j ≤ (3 : Digit), 0x002 ≠ storingAtTheEnd.placeAt j.val := by decide +kernel
  obtain ⟨put, kept, back, -, -, -, cycles⟩ := stored_registers_come_back storingAtTheEnd 3
  have restored := back n rfl (by decide) 2 (by decide)
  refine ⟨(put 3 (by decide)).trans (by decide +kernel), ?_, ?_, ?_, (cycles (.inl next)).1⟩
  · rw [kept 0x002 apart]
    decide +kernel
  · rw [restored 2]
    decide +kernel
  · rw [restored 3]
    decide +kernel

end Chip8.Machine
