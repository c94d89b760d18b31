import Chip8.Table

/-!
# The call stack

A ring of 64 return addresses. It neither overflows nor underflows: the pointer goes round.
-/

namespace Chip8

/-- The slots of the ring and the one that was pushed last. -/
structure CallStack where
  slots : Vector UInt16 64
  pointer : Fin 64

namespace CallStack

/-- Number of slots. -/
def size : Nat := 64

/-- A stack on which nothing was pushed. -/
def empty : CallStack := ⟨Vector.replicate 64 0, 0⟩

/-- Moves the pointer up and stores an address there. -/
def push (s : CallStack) (a : UInt16) : CallStack :=
  match s with
  | ⟨slots, pointer⟩ => ⟨slots.set (pointer + 1).val a (pointer + 1).isLt, pointer + 1⟩

/-- The address under the pointer. -/
def top (s : CallStack) : UInt16 := s.slots.get s.pointer

/-- Moves the pointer down. The slot keeps its address. -/
def drop (s : CallStack) : CallStack := { s with pointer := s.pointer - 1 }

/-- Takes the address under the pointer. -/
def pop (s : CallStack) : UInt16 × CallStack := (s.top, s.drop)

/-! ## The pointer and what is under it -/

@[simp] theorem pointer_push (s : CallStack) (a : UInt16) : (s.push a).pointer = s.pointer + 1 := rfl

@[simp] theorem top_push (s : CallStack) (a : UInt16) : (s.push a).top = a := by
  simp [push, top]

@[simp] theorem pointer_drop (s : CallStack) : s.drop.pointer = s.pointer - 1 := rfl

theorem slots_push (s : CallStack) (a : UInt16) (i : Fin 64) :
    (s.push a).slots.get i = if i = s.pointer + 1 then a else s.slots.get i := by
  simp [push, eq_comm]

@[simp] theorem slots_drop (s : CallStack) : s.drop.slots = s.slots := rfl

end CallStack
end Chip8
