import Chip8.Proofs.History

/-!
# Instructions on data

Many instructions have to do with memory, the registers and the index only: what they leave there depends on nothing
else (`Machine.SameData.perform`), and what happens between them from outside does not reach it
(`Machine.sameData_through`).
-/

namespace Chip8

/-- Whether an instruction reads and writes nothing but memory, the registers and the index. -/
def Instruction.onData : Instruction → Bool
  | .setByte .. | .addByte .. | .arithmetic .. | .setIndex _ | .addIndex _ | .glyph _ | .decimal _ | .store _
  | .fill _ => true
  | _ => false

namespace Machine

/-- Two machines with the same memory, registers and index. -/
structure SameData (m n : Machine) : Prop where
  memory : m.memory = n.memory
  v : m.v = n.v
  index : m.index = n.index

namespace SameData

theorem refl (m : Machine) : m.SameData m := ⟨rfl, rfl, rfl⟩

theorem trans {l m n : Machine} (first : l.SameData m) (second : m.SameData n) : l.SameData n :=
  ⟨first.memory.trans second.memory, first.v.trans second.v, first.index.trans second.index⟩

variable {m n : Machine} (same : m.SameData n)

include same

theorem perform {i : Instruction} (onData : i.onData = true) : (m.perform i).SameData (n.perform i) := by
  obtain ⟨memory, v, index⟩ := same
  rw [perform_eq, perform_eq]
  cases i with
  | setByte | addByte | setIndex | addIndex | glyph | decimal | store | fill =>
    constructor <;> simp only [memoryAfter, vAfter, indexAfter, memory, v, index]
  | arithmetic op x y => constructor <;> simp only [memoryAfter, vAfter, indexAfter, registersAfter, memory, v, index]
  | _ => cases onData

theorem foldl {is : List Instruction} (onData : ∀ i ∈ is, i.onData = true) :
    (is.foldl Machine.perform m).SameData (is.foldl Machine.perform n) := by
  induction is generalizing m n with
  | nil => exact same
  | cons i rest ih =>
    have first := onData i List.mem_cons_self
    exact ih (same.perform first) fun j member => onData j (List.mem_cons_of_mem i member)

end SameData

/-- A cycle on such an instruction is done at once, and leaves what the instruction leaves. -/
theorem cycle_of_onData {m : Machine} (onData : m.next.onData = true) :
    m.cycle.outcome = .done ∧ m.cycle.machine.SameData (m.perform m.next) := by
  have other : m.next ≠ .empty := by
    intro isEmpty
    rw [isEmpty] at onData
    cases onData
  have goes : m.wouldWait = false := by
    apply goes_unless_awaitKey
    intro x awaits
    rw [awaits] at onData
    cases onData
  have advanced : { m.advance with emptyRow := 0 }.SameData m := ⟨rfl, rfl, rfl⟩
  rw [cycle_of_goes other goes]
  exact ⟨rfl, advanced.perform onData⟩

theorem sameData_act {m : Machine} {a : Action} (noLoad : ∀ rom, a ≠ .load rom)
    (onData : ∀ i ∈ (m.executes a).map Instruction.decode, i.onData = true) :
    (m.act a).SameData (((m.executes a).map Instruction.decode).foldl perform m) := by
  cases a with
  | cycle =>
    by_cases waits : m.wouldWait = true
    · simp only [executes, waits, if_true, act, cycle_of_waits waits]
      exact SameData.refl m
    · simp only [executes, if_neg waits, List.map_cons, List.map_nil, List.forall_mem_singleton] at onData ⊢
      exact (cycle_of_onData onData).2
  | load rom => exact absurd rfl (noLoad rom)
  | tick => exact ⟨rfl, rfl, rfl⟩
  | touch t =>
    rw [act, touch_eq]
    exact ⟨rfl, rfl, rfl⟩

/-- A history without loads that executes such instructions only leaves what they leave one after another. -/
theorem sameData_through {m : Machine} {h : List Action} (noLoad : ∀ a ∈ h, ∀ rom, a ≠ .load rom)
    (onData : ∀ i ∈ (m.words h).map Instruction.decode, i.onData = true) :
    (m.through h).SameData (((m.words h).map Instruction.decode).foldl perform m) := by
  induction h generalizing m with
  | nil => exact SameData.refl m
  | cons a rest ih =>
    rw [words, List.map_append, List.forall_mem_append] at onData
    have step := sameData_act (noLoad a List.mem_cons_self) onData.1
    have later := ih (fun b member => noLoad b (List.mem_cons_of_mem a member)) onData.2
    rw [words, List.map_append, List.foldl_append]
    exact later.trans (step.foldl onData.2)

end Machine
end Chip8
