import Chip8.Proofs.History
import Mathlib.Tactic.Set

/-!
# Addresses stay in memory

The program counter can be taken from a slot of the call stack, so its bound is kept only together with a
bound on every slot of the ring, whether it was ever pushed or not (`InMemory`). Every action keeps both, and
so does every history of a fresh machine (`addresses_stay_in_memory`).
-/

namespace Chip8

namespace CallStack

/-- All slots name addresses inside memory. -/
def InMemory (s : CallStack) : Prop := ∀ i : Fin 64, s.slots.get i < 4096

theorem inMemory_empty : empty.InMemory := by
  intro i
  simp [empty]

theorem InMemory.push {s : CallStack} (inside : s.InMemory) {a : UInt16} (bound : a < 4096) : (s.push a).InMemory := by
  intro i
  rw [slots_push]
  split
  · exact bound
  · exact inside i

theorem InMemory.drop {s : CallStack} (inside : s.InMemory) : s.drop.InMemory := inside

theorem InMemory.top_lt {s : CallStack} (inside : s.InMemory) : s.top < 4096 := inside s.pointer

end CallStack

namespace Machine

/-- The program counter and all return addresses lie inside memory. -/
structure InMemory (m : Machine) : Prop where
  pc_lt : m.pc < 4096
  stack : m.stack.InMemory

theorem inMemory_fresh (config : Config) (random : List UInt8) : (fresh config random).InMemory :=
  ⟨(by decide : programStart < 4096), CallStack.inMemory_empty⟩

theorem InMemory.advance {m : Machine} (inside : m.InMemory) : m.advance.InMemory := ⟨after_lt _, inside.stack⟩

/-- Every instruction that names an address inside memory leads to one. -/
theorem InMemory.pc_perform {m : Machine} (inside : m.InMemory) {i : Instruction}
    (named : ∀ a, i.address? = some a → a < 4096) : (m.perform i).pc < 4096 := by
  rw [Machine.pc_perform]
  split
  -- A return takes the slot as it is, whoever wrote it.
  · exact inside.stack.top_lt
  · exact named _ rfl
  · exact named _ rfl
  · exact UInt16.mod_lt _ (by decide)
  · split
    · exact after_lt _
    · exact inside.pc_lt

theorem InMemory.perform {m : Machine} (inside : m.InMemory) {i : Instruction}
    (named : ∀ a, i.address? = some a → a < 4096) : (m.perform i).InMemory := by
  refine ⟨inside.pc_perform named, ?_⟩
  rw [stack_perform]
  cases i with
  | call nnn => exact inside.stack.push inside.pc_lt
  | ret => exact inside.stack.drop
  | _ => exact inside.stack

theorem InMemory.cycle {m : Machine} (inside : m.InMemory) : m.cycle.machine.InMemory := by
  rcases m.cycle_cases with ⟨-, -, eq⟩ | ⟨-, -, eq⟩ | ⟨-, -, eq⟩ | ⟨-, -, eq⟩ <;> rw [eq]
  · exact inside
  · exact ⟨inside.advance.pc_lt, inside.stack⟩
  · exact inside
  · have advanced : ({ m.advance with emptyRow := 0 } : Machine).InMemory := ⟨inside.advance.pc_lt, inside.stack⟩
    exact advanced.perform fun a => Instruction.address_lt

theorem InMemory.act {m : Machine} (inside : m.InMemory) (a : Action) : (m.act a).InMemory := by
  by_cases isCycle : a = .cycle
  · subst isCycle
    exact inside.cycle
  · refine ⟨?_, ?_⟩
    · rcases m.pc_act isCycle with same | start
      · rw [same]
        exact inside.pc_lt
      · rw [start]
        exact (by decide : programStart < 4096)
    · rw [m.stack_act isCycle]
      exact inside.stack

theorem InMemory.through {m : Machine} (inside : m.InMemory) (h : List Action) : (m.through h).InMemory :=
  through_induction (fun _ a kept => kept.act a) inside h

/-! ## The index is no address of memory -/

/-- A machine whose glyphs stand at an address takes it into its index by asking for the glyph of zero. -/
theorem index_of_glyph (a : UInt16) :
    ((fresh ⟨defaultClock, a⟩ []).through [.load [0xF0, 0x29], .cycle]).index = a := by
  set m := (fresh ⟨defaultClock, a⟩ []).load [0xF0, 0x29] with loaded
  have word : m.wordAt m.pc = 0xF029 := by
    have apart : Memory.slot (programStart + 1) ≠ Memory.slot programStart := by decide
    have behind : after programStart = programStart + 1 := by decide
    simp only [loaded, wordAt, load, Memory.load, Memory.fetch_write, behind, apart, ↓reduceIte]
    decide
  have glyph : m.next = .glyph 0 := by
    rw [next, word]
    decide
  have goes : m.wouldWait = false := by
    rw [wouldWait, glyph]
  rcases m.cycle_cases with ⟨isEmpty, -, -⟩ | ⟨isEmpty, -, -⟩ | ⟨-, waits, -⟩ | ⟨-, -, eq⟩
  · simp [glyph] at isEmpty
  · simp [glyph] at isEmpty
  · simp [goes] at waits
  · have base : m.memory.fontBase = a := by simp [loaded, load, fresh, Memory.fresh]
    have zero : m.v.get 0 = 0 := by simp [loaded, load, fresh]
    change m.cycle.machine.index = a
    rw [eq, glyph]
    change m.memory.fontBase + (m.v.get 0).toUInt16 * Font.glyphSize = a
    rw [base, zero]
    simp

/-- In every state that a history of a fresh machine reaches, the program counter, the pointer of the call
stack and all 64 return addresses are in range, and any word at all that is executed there leads to an address
inside memory. The index is in no such range: it can be any address of sixteen bits. -/
theorem addresses_stay_in_memory :
    (∀ (config : Config) (random : List UInt8) (h : List Action),
      let m := (fresh config random).through h
      m.pc.toNat < Memory.size ∧ m.stack.pointer.val < CallStack.size ∧
        (∀ i : Fin 64, (m.stack.slots.get i).toNat < Memory.size) ∧
        ∀ w : UInt16, (m.advance.perform (Instruction.decode w)).pc.toNat < Memory.size) ∧
    ∀ a : UInt16, ∃ config random h, ((fresh config random).through h).index = a := by
  refine ⟨fun config random h => ?_, fun a => ⟨_, _, _, index_of_glyph a⟩⟩
  have inside := (inMemory_fresh config random).through h
  refine ⟨UInt16.lt_iff_toNat_lt.mp inside.pc_lt, Fin.isLt _, fun i => UInt16.lt_iff_toNat_lt.mp (inside.stack i), ?_⟩
  intro w
  exact UInt16.lt_iff_toNat_lt.mp (inside.advance.pc_perform fun a => Instruction.address_lt)

end Machine
end Chip8
