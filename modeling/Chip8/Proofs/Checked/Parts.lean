import Chip8.Keypad
import Chip8.Memory
import Chip8.CallStack
import Chip8.Proofs.Checked.Operations

/-!
# Checked memory, call stack and keypad

The parts of a machine with a check at every place that they look up. An address is reduced to the size of
memory, a pointer goes round the ring and a key is masked, so every lookup finds its place.
-/

namespace Chip8.Checked

/-! ## Memory -/

def fetch (m : Memory) (a : UInt16) : Except Fault UInt8 := get m.bytes (a.toNat % 4096)

theorem fetch_eq (m : Memory) (a : UInt16) : fetch m a = .ok (m.fetch a) :=
  get_eq m.bytes (Nat.mod_lt _ (by decide))

def write (m : Memory) (a : UInt16) (b : UInt8) : Except Fault Memory := do
  let bytes ← set m.bytes (a.toNat % 4096) b
  return { m with bytes }

theorem write_eq (m : Memory) (a : UInt16) (b : UInt8) : write m a b = .ok (m.write a b) := by
  rw [write, set_eq m.bytes (Nat.mod_lt _ (by decide)), ok_bind]
  rfl

def read (m : Memory) (origin : UInt16) (count : Nat) : Except Fault (List UInt8) :=
  (List.range count).foldlM (fun bytes j => do return bytes ++ [← fetch m (origin + UInt16.ofNat j)]) []

theorem read_eq (m : Memory) (origin : UInt16) (count : Nat) : read m origin count = .ok (m.read origin count) := by
  refine loop_eq (fun k => m.read origin k) fun k below => ?_
  rw [fetch_eq, ok_bind, Memory.read, Memory.read, List.range_succ, List.map_append]
  rfl

/-- Puts the bytes of an array at an address and those after it. -/
def store {n : Nat} (m : Memory) (origin : UInt16) (bytes : Vector UInt8 n) (count : Nat) : Except Fault Memory :=
  (List.range count).foldlM (fun m j => do write m (origin + UInt16.ofNat j) (← get bytes j)) m

theorem load_concat (m : Memory) (origin : UInt16) (bytes : List UInt8) (b : UInt8) :
    m.load origin (bytes ++ [b]) = (m.load origin bytes).write (origin + UInt16.ofNat bytes.length) b := by
  induction bytes generalizing m origin with
  | nil => simp [Memory.load]
  | cons first rest ih =>
    have next : origin + 1 + UInt16.ofNat rest.length = origin + UInt16.ofNat (rest.length + 1) := by
      rw [UInt16.add_assoc, UInt16.ofNat_add, UInt16.add_comm 1]
      rfl
    rw [List.cons_append, Memory.load, Memory.load, ih, List.length_cons, next]

theorem store_eq {n : Nat} (m : Memory) (origin : UInt16) (bytes : Vector UInt8 n) {count : Nat} (fits : count ≤ n) :
    store m origin bytes count = .ok (m.load origin (bytes.toList.take count)) := by
  refine loop_eq (fun k => m.load origin (bytes.toList.take k)) fun k below => ?_
  have inside : k < n := by omega
  have next : bytes.toList.take (k + 1) = bytes.toList.take k ++ [bytes[k]] := by
    rw [List.take_succ_eq_append_getElem (by simpa using inside), Vector.getElem_toList]
  have length : (bytes.toList.take k).length = k := by
    rw [List.length_take, Vector.length_toList, Nat.min_eq_left (by omega)]
  rw [get_eq bytes inside, ok_bind, write_eq, next, load_concat, length]

/-! ## The call stack -/

def push (s : CallStack) (a : UInt16) : Except Fault CallStack := do
  let up := (← add s.pointer.val 1) % 64
  let slots ← set s.slots up a
  let pointer ← place 64 up
  return ⟨slots, pointer⟩

theorem push_eq (s : CallStack) (a : UInt16) : push s a = .ok (s.push a) := by
  have inside : (s.pointer.val + 1) % 64 < 64 := Nat.mod_lt _ (by decide)
  rw [push, add_eq (by omega), ok_bind]
  simp only [set_eq s.slots inside, place_eq inside, ok_bind]
  rfl

def pop (s : CallStack) : Except Fault (UInt16 × CallStack) := do
  let a ← get s.slots s.pointer.val
  let down ← if s.pointer.val = 0 then sub 64 1 else sub s.pointer.val 1
  let pointer ← place 64 down
  return (a, { s with pointer })

theorem pop_eq (s : CallStack) : pop s = .ok (s.top, s.drop) := by
  rw [pop, get_eq s.slots s.pointer.isLt, ok_bind]
  by_cases lowest : s.pointer.val = 0
  · have down : s.pointer - 1 = 63 := by
      rw [Fin.ext (b := 0) lowest]
      rfl
    rw [if_pos lowest, sub_eq (by decide)]
    simp only [ok_bind, CallStack.drop, down]
    rfl
  · have inside : s.pointer.val - 1 < 64 := by omega
    have down : s.pointer - 1 = ⟨s.pointer.val - 1, inside⟩ := by
      rw [Fin.ext_iff]
      simp only [Fin.sub_def, Fin.val_one]
      omega
    rw [if_neg lowest, sub_eq (by omega)]
    simp only [ok_bind, place_eq inside, CallStack.drop, down]
    rfl

/-! ## The keypad -/

theorem toNat_masked_key (k : UInt8) : (k &&& 0x0F).toNat = k.toNat % 16 := by
  rw [UInt8.toNat_and]
  exact Nat.and_two_pow_sub_one_eq_mod k.toNat 4

def isDown (p : Keypad) (k : UInt8) : Except Fault Bool := get p.keys (k &&& 0x0F).toNat

theorem isDown_eq (p : Keypad) (k : UInt8) : isDown p k = .ok (p.isDown k) := by
  simp only [isDown, toNat_masked_key]
  exact get_eq p.keys (Nat.mod_lt _ (by decide))

def put (p : Keypad) (k : UInt8) (down : Bool) : Except Fault Keypad := do
  let keys ← set p.keys (k &&& 0x0F).toNat down
  return ⟨keys⟩

theorem put_eq (p : Keypad) (k : UInt8) (down : Bool) : put p k down = .ok (p.put (Digit.low k) down) := by
  simp only [put, toNat_masked_key, set_eq p.keys (Nat.mod_lt k.toNat (by decide : 0 < 16)), ok_bind]
  rfl

def lowest? (p : Keypad) : Except Fault (Option Digit) :=
  match p.keys.toList.findIdx? id with
  | none => return none
  | some i => do return some (← digit (UInt8.ofNat i))

theorem lowest?_eq (p : Keypad) : lowest? p = .ok p.lowest? := by
  rw [lowest?, Keypad.lowest?]
  cases found : p.keys.toList.findIdx? id with
  | none =>
    have idle : Digit.all.find? p.holds = none := by
      rw [List.find?_eq_none]
      intro k _
      have up := List.findIdx?_eq_none_iff.mp found p.keys[k] (by simp)
      rw [Keypad.holds, Table.get_eq]
      simpa using up
    rw [idle]
    rfl
  | some i =>
    obtain ⟨inside, down, before⟩ := List.findIdx?_eq_some_iff_getElem.mp found
    rw [Vector.length_toList] at inside
    have first : Digit.all.find? p.holds = some ⟨i, inside⟩ := by
      rw [List.find?_eq_some_iff_getElem]
      refine ⟨by simpa [Keypad.holds, Table.get_eq] using down, i, by simpa [Digit.all] using inside, ?_⟩
      refine ⟨by simp [Digit.all], fun j earlier => ?_⟩
      simpa [Keypad.holds, Table.get_eq, Digit.all] using before j earlier
    have value : (UInt8.ofNat i).toNat = i := by
      rw [UInt8.toNat_ofNat']
      omega
    rw [first]
    simp only [digit_eq (d := ⟨i, inside⟩) value, ok_bind]
    rfl

end Chip8.Checked
