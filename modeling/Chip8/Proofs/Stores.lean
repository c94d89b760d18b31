import Chip8.Machine
import Chip8.Proofs.Places
import Mathlib.Data.List.DropRight

/-!
# The last store

A memory is changed byte by byte, and every address names a place modulo the size. Whatever was done to a memory, a
place holds the last byte that was stored there since the last reset, or else what it holds among the glyphs
(`Memory.places_hold_last_store`). One load may store many bytes into the same place (`fetch_load`).
-/

namespace Chip8.Memory

/-- What can be done to a memory. -/
inductive Change
  | write (a : UInt16) (b : UInt8)
  | load (origin : UInt16) (data : List UInt8)
  | reset

/-- A byte and the number that it is stored at, which counts on beyond the last address. -/
structure Store where
  number : Nat
  byte : UInt8

namespace Change

def isReset : Change → Bool
  | .reset => true
  | _ => false

/-- The stores of a change, one after another. -/
def stores : Change → List Store
  | .write a b => [⟨a.toNat, b⟩]
  | .load origin data => data.mapIdx fun j b => ⟨origin.toNat + j, b⟩
  | .reset => []

end Change

def change (m : Memory) : Change → Memory
  | .write a b => m.write a b
  | .load origin data => m.load origin data
  | .reset => m.reset

/-- The memory after changes, one after another. -/
def changes (m : Memory) (cs : List Change) : Memory := cs.foldl change m

/-- All stores behind the last reset. -/
def storesSinceReset (cs : List Change) : List Store := (cs.rtakeWhile fun c => !c.isReset).flatMap Change.stores

/-- The bytes that were stored at numbers congruent to an address, in their order. -/
def bytesAt (a : UInt16) (stores : List Store) : List UInt8 :=
  (stores.filter fun s => s.number % 4096 = a.toNat % 4096).map Store.byte

/-- What an address holds among the glyphs: the glyph byte at its distance from the base, or zero behind the last of
them. -/
def glyphByte (base a : UInt16) : UInt8 := Font.table.getD ((a - base).toNat % 4096) 0

/-! ## Stores into one place -/

theorem bytesAt_cons (a : UInt16) (n : Nat) (b : UInt8) (stores : List Store) :
    bytesAt a (⟨n, b⟩ :: stores) = if n % 4096 = a.toNat % 4096 then b :: bytesAt a stores else bytesAt a stores := by
  by_cases here : n % 4096 = a.toNat % 4096 <;> simp [bytesAt, here]

theorem bytesAt_append (a : UInt16) (stores more : List Store) :
    bytesAt a (stores ++ more) = bytesAt a stores ++ bytesAt a more := by
  simp [bytesAt]

theorem getLastD_append {α : Type} (xs ys : List α) (d : α) : (xs ++ ys).getLastD d = ys.getLastD (xs.getLastD d) := by
  induction xs generalizing d with
  | nil => rfl
  | cons x rest ih => rw [List.cons_append, List.getLastD_cons, List.getLastD_cons, ih]

theorem fetch_write_toNat (m : Memory) (a c : UInt16) (b : UInt8) :
    (m.write a b).fetch c = if a.toNat % 4096 = c.toNat % 4096 then b else m.fetch c := by
  simp only [fetch_write, slot, Fin.mk.injEq]

/-- A load leaves the last of its bytes that come to an address. -/
theorem fetch_load {number : Nat} {origin : UInt16} (congruent : number % 4096 = origin.toNat % 4096) (m : Memory)
    (data : List UInt8) (a : UInt16) :
    (m.load origin data).fetch a = (bytesAt a (data.mapIdx fun j b => ⟨number + j, b⟩)).getLastD (m.fetch a) := by
  induction data generalizing m origin number with
  | nil => rfl
  | cons b rest ih =>
    have next : (number + 1) % 4096 = (origin + 1).toNat % 4096 := by
      simp only [UInt16.toNat_add, UInt16.reduceToNat]
      omega
    have counted : (fun (j : Nat) (b : UInt8) => Store.mk (number + (j + 1)) b) = fun j b => ⟨number + 1 + j, b⟩ := by
      funext j b
      rw [Nat.add_comm j 1, Nat.add_assoc]
    rw [load, ih next, fetch_write_toNat, ← congruent, List.mapIdx_cons, counted, bytesAt_cons, Nat.add_zero number]
    by_cases here : number % 4096 = a.toNat % 4096
    · rw [if_pos here, if_pos here, List.getLastD_cons]
    · rw [if_neg here, if_neg here]

theorem fetch_change {c : Change} (keeps : c.isReset = false) (m : Memory) (a : UInt16) :
    (m.change c).fetch a = (bytesAt a c.stores).getLastD (m.fetch a) := by
  cases c with
  | write b byte =>
    rw [change, fetch_write_toNat, Change.stores, bytesAt_cons]
    split <;> rfl
  | load origin data => exact fetch_load rfl m data a
  | reset => cases keeps

/-! ## The glyphs -/

/-- A load that is no longer than memory stores at most once into each place. -/
theorem fetch_load_of_short {origin : UInt16} {data : List UInt8} (short : data.length ≤ 4096) (m : Memory)
    (a : UInt16) :
    (m.load origin data).fetch a = data.getD ((a - origin).toNat % 4096) (m.fetch a) := by
  induction data generalizing m origin with
  | nil => rfl
  | cons b rest ih =>
    rw [List.length_cons] at short
    have aBelow := a.toNat_lt
    have originBelow := origin.toNat_lt
    rw [load, ih (by omega), fetch_write_toNat]
    by_cases here : origin.toNat % 4096 = a.toNat % 4096
    · have first : (a - origin).toNat % 4096 = 0 := by
        rw [UInt16.toNat_sub]
        omega
      have around : (a - (origin + 1)).toNat % 4096 = 4095 := by
        simp only [UInt16.toNat_sub, UInt16.toNat_add, UInt16.reduceToNat]
        omega
      have none : rest[4095]? = none := List.getElem?_eq_none (by omega)
      rw [if_pos here, first, around, List.getD_cons_zero, List.getD_eq_getElem?_getD, none, Option.getD_none]
    · have later : (a - origin).toNat % 4096 = (a - (origin + 1)).toNat % 4096 + 1 := by
        simp only [UInt16.toNat_sub, UInt16.toNat_add, UInt16.reduceToNat]
        omega
      rw [if_neg here, later, List.getD_cons_succ]

/-- Such a load leaves its bytes in the places from its origin on, around the end of memory. -/
theorem get_bytes_load {origin : UInt16} {data : List UInt8} (short : data.length ≤ 4096) (m : Memory) {j : Nat}
    (below : j < data.length) : (m.load origin data).bytes.get (Fin.ofNat 4096 (origin.toNat + j)) = data[j] := by
  have distance : (origin + UInt16.ofNat j - origin).toNat % 4096 = j := by
    simp only [UInt16.add_comm origin, UInt16.add_sub_cancel, UInt16.toNat_ofNat']
    omega
  have fetched : (m.load origin data).fetch (origin + UInt16.ofNat j) = data[j] := by
    rw [fetch_load_of_short short, distance, List.getD_eq_getElem?_getD, List.getElem?_eq_getElem below]
    rfl
  rw [← slot_add_ofNat]
  exact fetched

theorem fetch_fresh (base a : UInt16) : (fresh base).fetch a = glyphByte base a := by
  have dark : (Memory.mk (Vector.replicate 4096 0) base).fetch a = 0 := Table.get_replicate 0 (slot a)
  rw [fresh, fetch_load_of_short (by decide), dark, glyphByte]

/-- The glyphs go on at the first place behind the last one. -/
theorem place_fresh (base : UInt16) {j : Nat} (glyph : j < Font.table.length) :
    (fresh base).bytes.get (Fin.ofNat 4096 (base.toNat + j)) = Font.table.getD j 0 := by
  rw [fresh, get_bytes_load (by decide) _ glyph, List.getD_eq_getElem?_getD, List.getElem?_eq_getElem glyph]
  rfl

/-! ## Changes one after another -/

@[simp] theorem fontBase_fresh (base : UInt16) : (fresh base).fontBase = base := by
  simp [fresh]

theorem fontBase_changes (m : Memory) (cs : List Change) : (m.changes cs).fontBase = m.fontBase := by
  induction cs generalizing m with
  | nil => rfl
  | cons c rest ih =>
    refine (ih (m.change c)).trans ?_
    cases c <;> simp [change, reset]

theorem changes_concat (m : Memory) (cs : List Change) (c : Change) :
    m.changes (cs ++ [c]) = (m.changes cs).change c := by
  simp [changes]

theorem fetch_changes (base : UInt16) (cs : List Change) (a : UInt16) :
    ((fresh base).changes cs).fetch a = (bytesAt a (storesSinceReset cs)).getLastD (glyphByte base a) := by
  induction cs using List.reverseRecOn with
  | nil => exact fetch_fresh base a
  | append_singleton cs c ih =>
    rw [changes_concat, storesSinceReset]
    cases resets : c.isReset with
    | true =>
      obtain rfl : c = .reset := by
        cases c with
        | reset => rfl
        | _ => cases resets
      rw [List.rtakeWhile_concat_neg _ _ _ (by simp [resets]), change, reset, fontBase_changes, fontBase_fresh,
        fetch_fresh]
      rfl
    | false =>
      rw [List.rtakeWhile_concat_pos _ _ _ (by simp [resets]), fetch_change resets, List.flatMap_append, bytesAt_append,
        getLastD_append, ih]
      simp [storesSinceReset]

/-- Whatever was done to a memory, every address finds the last byte that was stored since the last reset at a number
congruent to it, and else what stands there among the glyphs. A reset leaves a memory as it was in the beginning, the
glyphs of which go on at the first place behind the last one. A program that is loaded into a machine leaves alone
every place that none of its bytes comes to. -/
theorem places_hold_last_store (base : UInt16) (cs : List Change) :
    let m := (fresh base).changes cs
    (∀ a, m.fetch a = (bytesAt a (storesSinceReset cs)).getLastD (glyphByte base a)) ∧
    m.reset = fresh base ∧
    (∀ j < Font.table.length, (fresh base).bytes.get (Fin.ofNat 4096 (base.toNat + j)) = Font.table.getD j 0) ∧
    ∀ (n : Machine) (rom : Rom) (a : UInt16), (∀ j < rom.length, a.toNat % 4096 ≠ (programStart.toNat + j) % 4096) →
      (n.load rom).memory.fetch a = n.memory.fetch a := by
  intro m
  refine ⟨fetch_changes base cs, ?_, fun j glyph => place_fresh base glyph, ?_⟩
  · rw [reset, fontBase_changes, fontBase_fresh]
  · intro n rom a outside
    have elsewhere : ∀ j < rom.length, (slot a).val ≠ (programStart.toNat + j) % 4096 := outside
    exact get_bytes_load_outside elsewhere

/-- Stores around the end of memory, behind a reset, where the glyphs stand. -/
def aroundTheEnd : List Change :=
  [.load 0x0000 [7, 7, 7], .reset, .write 0x5FFF 1, .load 0xFFFE [2, 3, 4, 5], .write 0x3001 6]

theorem places_aroundTheEnd :
    let m := (fresh 0xFFE0).changes aroundTheEnd
    let long : Rom := List.replicate 3600 9
    [0x0FFF, 0x2000, 0x0001, 0x7002, 0x0030].map m.fetch = [3, 4, 6, 0xF0, 0] ∧ m.reset = fresh 0xFFE0 ∧
      (fresh 0xFFE0).bytes.get 0x02F = 0x80 ∧
      ∀ n : Machine, (n.load long).memory.fetch 0x0010 = n.memory.fetch 0x0010 := by
  intro m long
  obtain ⟨fetched, again, glyphs, loaded⟩ := places_hold_last_store 0xFFE0 aroundTheEnd
  refine ⟨?_, again, glyphs 79 (by decide), ?_⟩
  · simp only [List.map, m, fetched]
    decide
  · intro n
    refine loaded n long 0x0010 fun j below => ?_
    rw [List.length_replicate] at below
    simp only [programStart, UInt16.reduceToNat]
    omega

end Chip8.Memory
