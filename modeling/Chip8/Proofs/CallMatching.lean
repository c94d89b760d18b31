import Chip8.Proofs.History
import Mathlib.Data.List.Infix

/-!
# Calls and returns

A return finds the address that its call pushed, as long as the calls between them are never more than 63 deep:
on a ring of 64 slots only a deeper one would come round to the slot of the first call (`Holds.through`). Where
the pointer stood before does not matter (`return_matches_call`).
-/

namespace Chip8

/-- What an instruction adds to the depth of calls. -/
def Instruction.nesting : Instruction → Int
  | .call _ => 1
  | .ret => -1
  | _ => 0

/-- The executed calls less the executed returns. -/
def nesting : List UInt16 → Int
  | [] => 0
  | w :: rest => (Instruction.decode w).nesting + nesting rest

theorem nesting_append (words more : List UInt16) : nesting (words ++ more) = nesting words + nesting more := by
  induction words with
  | nil => simp [nesting]
  | cons w rest ih => rw [List.cons_append, nesting, nesting, ih, Int.add_assoc]

namespace Machine

/-- The machine after a cycle that takes its instruction and has to do more than to count it. -/
theorem act_cycle {m : Machine} (other : m.next ≠ .empty) (goes : m.wouldWait = false) :
    m.act .cycle = ({ m.advance with emptyRow := 0 } : Machine).perform m.next := by
  rw [act, cycle_of_goes other goes]

/-- A call pushes the address behind it and goes to the one that it names. -/
theorem act_call {m : Machine} {nnn : UInt16} (calls : m.next = .call nnn) :
    (m.act .cycle).pc = nnn ∧ (m.act .cycle).stack = m.stack.push ((m.pc + 2) % 4096) := by
  rw [act_cycle (by simp [calls]) (goes_unless_awaitKey (by simp [calls])), calls, pc_perform, stack_perform,
    ← after_after]
  exact ⟨rfl, rfl⟩

/-- A return goes to the address under the pointer and moves the pointer down. -/
theorem act_ret {m : Machine} (returns : m.next = .ret) :
    (m.act .cycle).pc = m.stack.top ∧ (m.act .cycle).stack = m.stack.drop := by
  rw [act_cycle (by simp [returns]) (goes_unless_awaitKey (by simp [returns])), returns, pc_perform, stack_perform]
  exact ⟨rfl, rfl⟩

/-- What an action does to the call stack, and what it adds to the depth of calls. -/
def StackStep (m : Machine) (a : Action) : Prop :=
  (nesting (m.executes a) = 1 ∧ (m.act a).stack = m.stack.push ((m.pc + 2) % 4096)) ∨
  (nesting (m.executes a) = -1 ∧ (m.act a).stack = m.stack.drop) ∨
  (nesting (m.executes a) = 0 ∧ (m.act a).stack = m.stack)

theorem stackStep_cycle (m : Machine) : m.StackStep .cycle := by
  have depth (goes : m.wouldWait = false) : nesting (m.executes .cycle) = m.next.nesting := by
    simp [executes, goes, nesting, next]
  rcases m.cycle_cases with ⟨isEmpty, -, eq⟩ | ⟨isEmpty, -, eq⟩ | ⟨-, waits, eq⟩ | ⟨other, goes, -⟩
  · have goes := wouldWait_of_empty isEmpty
    exact .inr (.inr ⟨by rw [depth goes, isEmpty]; rfl, by rw [act, eq]⟩)
  · have goes := wouldWait_of_empty isEmpty
    exact .inr (.inr ⟨by rw [depth goes, isEmpty]; rfl, by rw [act, eq]; rfl⟩)
  · exact .inr (.inr ⟨by simp [executes, waits, nesting], by rw [act, eq]⟩)
  · unfold StackStep
    rw [depth goes]
    cases instruction : m.next with
    | call nnn => exact .inl ⟨rfl, (act_call instruction).2⟩
    | ret => exact .inr (.inl ⟨rfl, (act_ret instruction).2⟩)
    | _ =>
      refine .inr (.inr ⟨rfl, ?_⟩)
      rw [act_cycle other goes, instruction, stack_perform]
      rfl

/-- An action calls, returns or leaves the call stack alone. -/
theorem stackStep (m : Machine) (a : Action) : m.StackStep a := by
  by_cases isCycle : a = .cycle
  · subst isCycle
    exact m.stackStep_cycle
  · exact .inr (.inr ⟨by rw [executes_outside m isCycle]; rfl, stack_act m isCycle⟩)

/-! ## The slot of a call -/

/-- A slot holds an address, and the pointer is so many calls above it. -/
structure Holds (m : Machine) (slot : Fin 64) (address : UInt16) (depth : Int) : Prop where
  kept : m.stack.slots.get slot = address
  above : m.stack.pointer = slot + Fin.ofNat 64 depth.toNat

/-- A slot is not written while the calls above it stay within the ring. -/
theorem Holds.act {m : Machine} {slot : Fin 64} {address : UInt16} {depth : Int} (holds : m.Holds slot address depth)
    (a : Action) (low : 0 ≤ depth) (lower : 0 ≤ depth + nesting (m.executes a))
    (upper : depth + nesting (m.executes a) ≤ 63) : (m.act a).Holds slot address (depth + nesting (m.executes a)) := by
  rcases m.stackStep a with ⟨calls, eq⟩ | ⟨returns, eq⟩ | ⟨same, eq⟩
  · rw [calls] at upper ⊢
    have next : m.stack.pointer + 1 = slot + Fin.ofNat 64 (depth + 1).toNat := by
      rw [holds.above, Fin.ext_iff]
      simp only [Fin.val_add, Fin.val_ofNat, Fin.val_one]
      omega
    -- The new slot is at most 63 above the held one, which on a ring of 64 is another slot.
    have apart : slot ≠ m.stack.pointer + 1 := by
      rw [next, ne_eq, Fin.ext_iff]
      simp only [Fin.val_add, Fin.val_ofNat]
      omega
    refine ⟨?_, ?_⟩
    · rw [eq, CallStack.slots_push, if_neg apart]
      exact holds.kept
    · rw [eq, CallStack.pointer_push, next]
  · rw [returns] at lower ⊢
    refine ⟨?_, ?_⟩
    · rw [eq, CallStack.slots_drop]
      exact holds.kept
    · rw [eq, CallStack.pointer_drop, holds.above, Fin.ext_iff]
      simp only [Fin.sub_def, Fin.val_add, Fin.val_ofNat, Fin.val_one]
      omega
  · rw [same, Int.add_zero]
    exact ⟨by rw [eq]; exact holds.kept, by rw [eq]; exact holds.above⟩

/-- A slot is not written through a whole history whose calls above it stay within the ring. -/
theorem Holds.through {m : Machine} {slot : Fin 64} {address : UInt16} {depth : Int}
    (holds : m.Holds slot address depth) (low : 0 ≤ depth) (h : List Action)
    (bounded : ∀ g, g <+: h → 0 ≤ depth + nesting (m.words g) ∧ depth + nesting (m.words g) ≤ 63) :
    (m.through h).Holds slot address (depth + nesting (m.words h)) := by
  -- What the first action does to the depth is where the rest of the history starts from.
  induction h generalizing m depth with
  | nil => simpa [Machine.through, words, nesting] using holds
  | cons a rest ih =>
    have first := bounded [a] ⟨rest, rfl⟩
    rw [words_singleton] at first
    have held := holds.act a low first.1 first.2
    rw [words, nesting_append, ← Int.add_assoc]
    refine ih held first.1 fun g begins => ?_
    have later := bounded (a :: g) (List.cons_prefix_cons.mpr ⟨rfl, begins⟩)
    rwa [words, nesting_append, ← Int.add_assoc] at later

/-- With no call above it, a slot is the one that a return reads. -/
theorem Holds.level {m : Machine} {slot : Fin 64} {address : UInt16} (holds : m.Holds slot address 0) :
    m.stack.pointer = slot ∧ m.stack.top = address := by
  have level : m.stack.pointer = slot := by simpa using holds.above
  subst level
  exact ⟨rfl, holds.kept⟩

/-- Behind a call, let anything happen as long as the executed calls less the executed returns are never below 0
or above 63 and are 0 in the end. The next return then leads behind the call, and the pointer is where it was
before, wherever that is. -/
theorem return_matches_call (m : Machine) (nnn : UInt16) (calls : m.next = .call nnn) (h : List Action)
    (bounded : ∀ g, g <+: h → 0 ≤ nesting ((m.act .cycle).words g) ∧ nesting ((m.act .cycle).words g) ≤ 63)
    (closed : nesting ((m.act .cycle).words h) = 0) (returns : ((m.act .cycle).through h).next = .ret) :
    (m.through (.cycle :: h ++ [.cycle])).pc = (m.pc + 2) % 4096 ∧
      (m.through (.cycle :: h ++ [.cycle])).stack.pointer = m.stack.pointer := by
  have called : (m.act .cycle).stack = m.stack.push ((m.pc + 2) % 4096) := (act_call calls).2
  have holds : (m.act .cycle).Holds (m.stack.pointer + 1) ((m.pc + 2) % 4096) 0 := by
    refine ⟨?_, ?_⟩
    · rw [called, CallStack.slots_push, if_pos rfl]
    · rw [called, CallStack.pointer_push]
      simp
  have held := holds.through (Int.le_refl 0) h (by simpa using bounded)
  rw [closed] at held
  obtain ⟨level, kept⟩ := held.level
  have last : m.through (.cycle :: h ++ [.cycle]) = ((m.act .cycle).through h).act .cycle := by
    rw [List.cons_append, Machine.through, through_append, through_singleton]
  have back : m.stack.pointer + 1 - 1 = m.stack.pointer := by
    rw [Fin.ext_iff]
    simp only [Fin.sub_def, Fin.val_add, Fin.val_one]
    omega
  rw [last, (act_ret returns).1, (act_ret returns).2, CallStack.pointer_drop, level]
  exact ⟨kept, back⟩

/-- A machine whose pointer an early return has moved from 0 to 63, in front of two nested calls. -/
def underflowed : Machine :=
  (fresh .default []).through
    [.load [0x00, 0xEE], .cycle, .load [0x22, 0x04, 0x00, 0x00, 0x22, 0x08, 0x00, 0xEE, 0x00, 0xEE]]

theorem return_matches_call_underflowed :
    underflowed.stack.pointer = 63 ∧
      (underflowed.through [.cycle, .cycle, .tick, .cycle, .cycle]).pc = 0x202 ∧
      (underflowed.through [.cycle, .cycle, .tick, .cycle, .cycle]).stack.pointer = 63 := by
  have between : (∀ g ∈ [Action.cycle, .tick, .cycle].inits,
        0 ≤ nesting ((underflowed.act .cycle).words g) ∧ nesting ((underflowed.act .cycle).words g) ≤ 63) ∧
      nesting ((underflowed.act .cycle).words [.cycle, .tick, .cycle]) = 0 ∧
      ((underflowed.act .cycle).through [.cycle, .tick, .cycle]).next = .ret := by decide +kernel
  have first : underflowed.stack.pointer = 63 ∧ underflowed.next = .call 0x204 := by decide +kernel
  obtain ⟨back, level⟩ := return_matches_call underflowed 0x204 first.2 [.cycle, .tick, .cycle]
    (fun g begins => between.1 g ((List.mem_inits _ _).mpr begins)) between.2.1 between.2.2
  simp only [List.cons_append, List.nil_append] at back level
  have start : underflowed.pc = programStart := rfl
  have behind : (programStart + 2) % 4096 = 0x202 := by decide
  rw [start, behind] at back
  rw [first.1] at level
  exact ⟨first.1, back, level⟩

end Machine
end Chip8
