import Chip8.Proofs.Checked.Parts
import Mathlib.Data.List.Induction

/-!
# The ring of return addresses

Addresses are pushed and popped in any order, any number of times. The pushes less the pops (`CallStack.level`) may
fall below zero and rise above the number of slots: modulo that number they say where the pointer stands, and a slot
holds what was pushed last at a level that leads to it (`CallStack.get_after`). Read from the pointer downwards
(`CallStack.below`) a ring has the last pushed address first, and comes round again after 64 places
(`CallStack.returned_pops`).
-/

namespace Chip8
namespace CallStack

/-- What can be done to a call stack. -/
inductive Use
  | push (a : UInt16)
  | pop

/-- What a use adds to the level. -/
def Use.rise : Use → Int
  | .push _ => 1
  | .pop => -1

/-- The pushes less the pops. -/
def level : List Use → Int
  | [] => 0
  | u :: rest => u.rise + level rest

/-- A pushed address, and the level that its push leads to. -/
structure Pushed where
  level : Int
  address : UInt16

/-- The pushes among some uses, in their order, from a level on. -/
def pushesFrom (start : Int) : List Use → List Pushed
  | [] => []
  | .push a :: rest => ⟨start + 1, a⟩ :: pushesFrom (start + 1) rest
  | .pop :: rest => pushesFrom (start - 1) rest

/-- The addresses that were pushed at levels congruent to a given one, in their order. -/
def addressesAt (d : Int) (us : List Use) : List UInt16 :=
  ((pushesFrom 0 us).filter fun p => p.level % 64 = d % 64).map Pushed.address

def use (s : CallStack) : Use → CallStack
  | .push a => s.push a
  | .pop => s.pop.2

/-- The call stack after uses, one after another. -/
def after (s : CallStack) (us : List Use) : CallStack := us.foldl use s

/-- What the pops among some uses return, in their order. -/
def returned (s : CallStack) : List Use → List UInt16
  | [] => []
  | .push a :: rest => (s.push a).returned rest
  | .pop :: rest => s.pop.1 :: s.pop.2.returned rest

/-- The address so many places below the pointer. -/
def below (s : CallStack) (k : Fin 64) : UInt16 := s.slots.get (s.pointer - k)

end CallStack

/-- Uses of a call stack with every check, one after another, and what their pops return. -/
def Checked.uses (s : CallStack) : List CallStack.Use → Except Fault (List UInt16 × CallStack)
  | [] => return ([], s)
  | .push a :: rest => do uses (← push s a) rest
  | .pop :: rest => do
    let (a, t) ← pop s
    let (as, u) ← uses t rest
    return (a :: as, u)

namespace CallStack

theorem uses_eq (s : CallStack) (us : List Use) : Checked.uses s us = .ok (s.returned us, s.after us) := by
  induction us generalizing s with
  | nil => rfl
  | cons u rest ih =>
    cases u with
    | push a =>
      rw [Checked.uses, Checked.push_eq, Checked.ok_bind, ih]
      rfl
    | pop =>
      simp only [Checked.uses, Checked.pop_eq, Checked.ok_bind, ih]
      rfl

/-! ## Uses one after another -/

theorem after_append (s : CallStack) (us more : List Use) : s.after (us ++ more) = (s.after us).after more :=
  List.foldl_append

theorem returned_append (s : CallStack) (us more : List Use) :
    s.returned (us ++ more) = s.returned us ++ (s.after us).returned more := by
  induction us generalizing s with
  | nil => rfl
  | cons u rest ih =>
    cases u with
    | push a => exact ih (s.push a)
    | pop => exact congrArg (s.pop.1 :: ·) (ih s.pop.2)

theorem level_snoc (us : List Use) (u : Use) : level (us ++ [u]) = level us + u.rise := by
  induction us with
  | nil => simp [level]
  | cons first rest ih => rw [List.cons_append, level, level, ih, Int.add_assoc]

theorem pushesFrom_append (start : Int) (us more : List Use) :
    pushesFrom start (us ++ more) = pushesFrom start us ++ pushesFrom (start + level us) more := by
  induction us generalizing start with
  | nil => simp [pushesFrom, level]
  | cons u rest ih =>
    rw [level, ← Int.add_assoc]
    cases u with
    | push a => exact congrArg (_ :: ·) (ih (start + 1))
    | pop => exact ih (start - 1)

theorem addressesAt_push (d : Int) (us : List Use) (a : UInt16) :
    addressesAt d (us ++ [.push a]) =
      if (level us + 1) % 64 = d % 64 then addressesAt d us ++ [a] else addressesAt d us := by
  by_cases here : (level us + 1) % 64 = d % 64 <;> simp [addressesAt, pushesFrom_append, pushesFrom, here]

theorem addressesAt_pop (d : Int) (us : List Use) : addressesAt d (us ++ [.pop]) = addressesAt d us := by
  simp [addressesAt, pushesFrom_append, pushesFrom]

/-! ## The slot of a level -/

theorem pointer_after (us : List Use) : ((empty.after us).pointer.val : Int) = level us % 64 := by
  induction us using List.reverseRecOn with
  | nil => rfl
  | append_singleton us u ih =>
    rw [after_append, level_snoc]
    cases u with
    | push a =>
      show (((empty.after us).pointer + 1).val : Int) = (level us + 1) % 64
      rw [Fin.val_add, Fin.val_one]
      omega
    | pop =>
      show (((empty.after us).pointer - 1).val : Int) = (level us + -1) % 64
      rw [Fin.sub_def, Fin.val_one]
      dsimp only
      omega

/-- A slot holds the address that was pushed last at a level that leads to it. -/
theorem get_after (us : List Use) {d : Int} {i : Fin 64} (leads : (i.val : Int) = d % 64) :
    (empty.after us).slots.get i = (addressesAt d us).getLastD 0 := by
  induction us using List.reverseRecOn with
  | nil => exact Table.get_replicate 0 i
  | append_singleton us u ih =>
    rw [after_append]
    cases u with
    | push a =>
      -- The slot above the pointer is the one that the new level leads to.
      have here : i = (empty.after us).pointer + 1 ↔ (level us + 1) % 64 = d % 64 := by
        have stands := pointer_after us
        rw [Fin.ext_iff, Fin.val_add, Fin.val_one]
        omega
      show ((empty.after us).push a).slots.get i = _
      rw [slots_push, addressesAt_push]
      by_cases same : (level us + 1) % 64 = d % 64
      · rw [if_pos (here.mpr same), if_pos same, List.getLastD_concat]
      · rw [if_neg (mt here.mp same), if_neg same, ih]
    | pop =>
      rw [addressesAt_pop]
      exact ih

/-! ## From the pointer downwards -/

@[simp] theorem below_zero (s : CallStack) : s.below 0 = s.top := by
  have here : s.pointer - 0 = s.pointer := by
    simp only [Fin.ext_iff, Fin.sub_def, Fin.val_zero]
    omega
  exact congrArg s.slots.get here

theorem below_push (s : CallStack) (a : UInt16) (k : Fin 64) :
    (s.push a).below k = if k = 0 then a else s.below (k - 1) := by
  have here : s.pointer + 1 - k = s.pointer + 1 ↔ k = 0 := by
    simp only [Fin.ext_iff, Fin.sub_def, Fin.val_add, Fin.val_one, Fin.val_zero]
    omega
  have down : s.pointer + 1 - k = s.pointer - (k - 1) := by
    simp only [Fin.ext_iff, Fin.sub_def, Fin.val_add, Fin.val_one]
    omega
  rw [below, pointer_push, slots_push]
  by_cases first : k = 0
  · rw [if_pos (here.mpr first), if_pos first]
  · rw [if_neg (mt here.mp first), if_neg first, down]
    rfl

theorem below_drop (s : CallStack) (k : Fin 64) : s.drop.below k = s.below (k + 1) := by
  have down : s.pointer - 1 - k = s.pointer - (k + 1) := by
    simp only [Fin.ext_iff, Fin.sub_def, Fin.val_add, Fin.val_one]
    omega
  exact congrArg s.slots.get down

/-- Pushed addresses lie below the pointer, the last one first. -/
theorem below_pushes (s : CallStack) (as : List UInt16) (k : Fin 64) (pushed : k.val < as.length) :
    as.reverse[k.val]? = some ((s.after (as.map .push)).below k) := by
  induction as using List.reverseRecOn generalizing k with
  | nil => simp at pushed
  | append_singleton as a ih =>
    rw [List.map_append, after_append, List.reverse_concat]
    show (a :: as.reverse)[k.val]? = some (((s.after (as.map .push)).push a).below k)
    rw [below_push]
    by_cases first : k = 0
    · subst first
      rfl
    · have counted : k.val = (k - 1).val + 1 := by
        rw [Fin.ext_iff, Fin.val_zero] at first
        rw [Fin.sub_def, Fin.val_one]
        dsimp only
        omega
      rw [List.length_append, List.length_singleton] at pushed
      rw [if_neg first, counted, List.getElem?_cons_succ, ih (k - 1) (by omega)]

/-- Pops return what lies below the pointer, place by place and around the ring. -/
theorem returned_pops (s : CallStack) (m : Nat) :
    s.returned (List.replicate m .pop) = (List.range m).map fun k => s.below (Fin.ofNat 64 k) := by
  induction m generalizing s with
  | zero => rfl
  | succ m ih =>
    have next (k : Nat) : Fin.ofNat 64 k + 1 = Fin.ofNat 64 (k + 1) := by
      simp only [Fin.ext_iff, Fin.val_add, Fin.val_ofNat, Fin.val_one]
      omega
    rw [List.replicate_succ, returned, ih, List.range_succ_eq_map, List.map_cons, List.map_map]
    simp only [pop, below_drop, next]
    exact congrArg (· :: _) s.below_zero.symm

theorem returned_pushes (s : CallStack) (as : List UInt16) : s.returned (as.map .push) = [] := by
  induction as generalizing s with
  | nil => rfl
  | cons a rest ih => exact ih (s.push a)

/-- Behind pushes, pops return the last of the addresses first, and come round to it again. -/
theorem returned_behind_pushes (s : CallStack) (as : List UInt16) {m k : Nat} (popped : k < m)
    (pushed : k % 64 < as.length) :
    (s.returned (as.map .push ++ List.replicate m .pop))[k]? = as.reverse[k % 64]? := by
  have lies := below_pushes s as (Fin.ofNat 64 k) pushed
  rw [Fin.val_ofNat] at lies
  rw [returned_append, returned_pushes, List.nil_append, returned_pops, lies]
  simp [popped]

theorem length_returned_behind_pushes (s : CallStack) (as : List UInt16) (m : Nat) :
    (s.returned (as.map .push ++ List.replicate m .pop)).length = m := by
  simp [returned_append, returned_pushes, returned_pops]

theorem returned_few_behind_pushes (s : CallStack) (as : List UInt16) {m : Nat} (few : m ≤ min as.length 64) :
    s.returned (as.map .push ++ List.replicate m .pop) = as.reverse.take m := by
  apply List.ext_getElem?
  intro k
  by_cases popped : k < m
  · have once : k % 64 = k := Nat.mod_eq_of_lt (by omega)
    rw [returned_behind_pushes s as popped (by omega), once, List.getElem?_take_of_lt popped]
  · rw [List.getElem?_eq_none (by rw [length_returned_behind_pushes]; omega),
      List.getElem?_eq_none (by rw [List.length_take]; omega)]

theorem returned_empty_pops (m : Nat) : empty.returned (List.replicate m .pop) = List.replicate m 0 := by
  rw [returned_pops, List.eq_replicate_iff]
  refine ⟨by simp, fun a member => ?_⟩
  obtain ⟨k, -, rfl⟩ := List.mem_map.mp member
  exact Table.get_replicate 0 _

/-- From an empty call stack, any uses in any order succeed with every check. The pointer is their level modulo the
number of slots, and the next pop returns the address that was pushed last at a level congruent to theirs, or else
zero; it changes no slot. Behind any uses, the last 64 of a row of pushed addresses come back in reverse order, and
these again and again if there were so many. Without a push all pops return zero. -/
theorem pops_return_last_pushes (us : List Use) :
    let s := empty.after us
    Checked.uses empty us = .ok (empty.returned us, s) ∧
    (s.pointer.val : Int) = level us % 64 ∧
    empty.returned (us ++ [.pop]) = empty.returned us ++ [(addressesAt (level us) us).getLastD 0] ∧
    (empty.after (us ++ [.pop])).slots = s.slots ∧
    (∀ as : List UInt16,
      (∀ m ≤ min as.length 64, s.returned (as.map .push ++ List.replicate m .pop) = as.reverse.take m) ∧
      (64 ≤ as.length → ∀ m, ∀ k < m,
        (s.returned (as.map .push ++ List.replicate m .pop))[k]? = (as.reverse.take 64)[k % 64]?)) ∧
    ∀ m, empty.returned (List.replicate m .pop) = List.replicate m 0 := by
  intro s
  refine ⟨uses_eq empty us, pointer_after us, ?_, ?_, ?_, returned_empty_pops⟩
  · have top : s.top = (addressesAt (level us) us).getLastD 0 := get_after us (pointer_after us)
    rw [returned_append, ← top]
    rfl
  · rw [after_append]
    rfl
  · intro as
    refine ⟨fun m few => s.returned_few_behind_pushes as few, fun many m k popped => ?_⟩
    have within : k % 64 < 64 := Nat.mod_lt _ (by decide)
    rw [returned_behind_pushes s as popped (by omega), List.getElem?_take_of_lt within]

/-- One address is pushed, and then the pops go once around the ring. -/
def poppedAround : List Use := .push 0x204 :: List.replicate 64 .pop

/-- More addresses than there are slots. -/
def seventy : List UInt16 := (List.range 70).map UInt16.ofNat

theorem pops_return_last_pushes_poppedAround :
    level poppedAround = -63 ∧ (empty.after poppedAround).pointer = 1 ∧
      empty.returned (poppedAround ++ [.pop]) = empty.returned poppedAround ++ [0x204] ∧
      (empty.after poppedAround).returned (seventy.map .push ++ List.replicate 3 .pop) = [69, 68, 67] ∧
      ((empty.after poppedAround).returned (seventy.map .push ++ List.replicate 130 .pop))[129]? = some 68 := by
  obtain ⟨-, stands, next, -, behind, -⟩ := pops_return_last_pushes poppedAround
  have round : level poppedAround = -63 := by decide
  have last : (addressesAt (level poppedAround) poppedAround).getLastD 0 = 0x204 := by decide +kernel
  obtain ⟨few, many⟩ := behind seventy
  rw [last] at next
  rw [round] at stands
  refine ⟨round, Fin.ext ?_, next, few 3 (by decide), many (by decide) 130 129 (by decide)⟩
  exact Int.ofNat_inj.mp stands

end CallStack
end Chip8
