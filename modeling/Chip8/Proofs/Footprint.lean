import Chip8.Proofs.Effects
import Chip8.Proofs.Places

/-!
# The footprint of words

The parts of a machine, and those of them that a word may change (`Machine.MayChange`). A cycle changes no other
part (`Machine.same_cycle`), and as there is nothing to a machine but its parts (`Machine.ext_parts`), nothing
else changes at all.
-/

namespace Chip8

/-- A part of a machine: a place in memory, a slot of the call stack, a register or one of the other fields. -/
inductive Part
  | byte (place : Fin 4096)
  | fontBase
  | slot (i : Fin 64)
  | pointer
  | display
  | keypad
  | pc
  | index
  | register (k : Digit)
  | delay
  | sound
  | emptyRow
  | stopping
  | random

namespace Machine
open Word Instruction

/-- Whether two machines are the same in a part. -/
def Same (m n : Machine) : Part → Prop
  | .byte place => m.memory.bytes.get place = n.memory.bytes.get place
  | .fontBase => m.memory.fontBase = n.memory.fontBase
  | .slot i => m.stack.slots.get i = n.stack.slots.get i
  | .pointer => m.stack.pointer = n.stack.pointer
  | .display => m.display = n.display
  | .keypad => m.keypad = n.keypad
  | .pc => m.pc = n.pc
  | .index => m.index = n.index
  | .register k => m.v.get k = n.v.get k
  | .delay => m.delay = n.delay
  | .sound => m.sound = n.sound
  | .emptyRow => m.emptyRow = n.emptyRow
  | .stopping => m.stopping = n.stopping
  | .random => m.random = n.random

theorem Same.refl (m : Machine) (p : Part) : m.Same m p := by
  cases p <;> rfl

theorem Same.trans {m n o : Machine} {p : Part} (first : m.Same n p) (second : n.Same o p) : m.Same o p := by
  cases p <;> exact Eq.trans first second

theorem ext_parts {m n : Machine} (same : ∀ p, m.Same n p) : m = n := by
  obtain ⟨⟨bytes, fontBase⟩, ⟨slots, pointer⟩, display, keypad, pc, index, v, delay, sound, row, stopping, random⟩ := m
  obtain ⟨⟨bytes', fontBase'⟩, ⟨slots', pointer'⟩, display', keypad', pc', index', v', delay', sound', row', stopping',
    random'⟩ := n
  have sameBytes : bytes = bytes' := Table.ext_get fun place => same (.byte place)
  have sameSlots : slots = slots' := Table.ext_get fun i => same (.slot i)
  have sameV : v = v' := Table.ext_get fun k => same (.register k)
  obtain rfl : fontBase = fontBase' := same .fontBase
  obtain rfl : pointer = pointer' := same .pointer
  obtain rfl : display = display' := same .display
  obtain rfl : keypad = keypad' := same .keypad
  obtain rfl : pc = pc' := same .pc
  obtain rfl : index = index' := same .index
  obtain rfl : delay = delay' := same .delay
  obtain rfl : sound = sound' := same .sound
  obtain rfl : row = row' := same .emptyRow
  obtain rfl : stopping = stopping' := same .stopping
  obtain rfl : random = random' := same .random
  rw [sameBytes, sameSlots, sameV]

/-- The parts of a machine that a word may change. Every word may change the program counter and the count of empty
words. -/
def MayChange (m : Machine) (w : UInt16) : Part → Prop
  | .byte place =>
    (head w = 0xF ∧ kk w = 0x33 ∧ ∃ j < 3, place.val = (m.index.toNat + j) % 4096) ∨
    (head w = 0xF ∧ kk w = 0x55 ∧ ∃ j ≤ (x w).val, place.val = (m.index.toNat + j) % 4096)
  | .slot i => head w = 0x2 ∧ i.val = (m.stack.pointer.val + 1) % 64
  | .pointer => head w = 0x2 ∨ w = 0x00EE
  | .display => w = 0x00E0 ∨ head w = 0xD
  | .index => head w = 0xA ∨ head w = 0xF ∧ kk w ∈ [0x1E, 0x29]
  | .register k =>
    (k = x w ∧ (head w ∈ [0x6, 0x7, 0xC] ∨ head w = 0x8 ∧ (n w).val ∈ [0x0, 0x1, 0x2, 0x3, 0x4, 0x5, 0x6, 0x7, 0xE] ∨
      head w = 0xF ∧ kk w ∈ [0x07, 0x0A])) ∨
    (k = 0xF ∧ (head w = 0xD ∨ head w = 0x8 ∧ (n w).val ∈ [0x4, 0x5, 0x6, 0x7, 0xE])) ∨
    (k ≤ x w ∧ head w = 0xF ∧ kk w = 0x65)
  | .delay => head w = 0xF ∧ kk w = 0x15
  | .sound => head w = 0xF ∧ kk w = 0x18
  | .random => head w = 0xC
  | .pc | .emptyRow => True
  | .fontBase | .keypad | .stopping => False

/-! ## Part by part -/

theorem same_byte {m : Machine} {w : UInt16} {place : Fin 4096} (other : ¬ m.MayChange w (.byte place)) :
    (m.memoryAfter (decode w)).bytes.get place = m.memory.bytes.get place := by
  cases found : decode w with
  | decimal r =>
    obtain ⟨first, last, rfl⟩ := fits_of_decode found nofun
    apply Memory.get_bytes_load_outside
    intro j below here
    exact other (.inl ⟨first, last, j, below, here⟩)
  | store r =>
    obtain ⟨first, last, rfl⟩ := fits_of_decode found nofun
    apply Memory.get_bytes_load_outside
    intro j below here
    rw [List.length_take] at below
    exact other (.inr ⟨first, last, j, by omega, here⟩)
  | _ => rfl

theorem same_slot {m : Machine} {w : UInt16} {i : Fin 64} (other : ¬ m.MayChange w (.slot i)) :
    (m.stackAfter (decode w)).slots.get i = m.stack.slots.get i := by
  cases found : decode w with
  | call nnn =>
    have first := (fits_of_decode found nofun).1
    have apart : i ≠ m.stack.pointer + 1 := fun here => other ⟨first, by rw [here, Fin.val_add]; rfl⟩
    show (m.stack.push m.pc).slots.get i = m.stack.slots.get i
    rw [CallStack.slots_push, if_neg apart]
  | _ => rfl

theorem same_pointer {m : Machine} {w : UInt16} (other : ¬ m.MayChange w .pointer) :
    (m.stackAfter (decode w)).pointer = m.stack.pointer := by
  cases found : decode w with
  | call nnn => exact absurd (.inl (fits_of_decode found nofun).1) other
  | ret => exact absurd (.inr (fits_of_decode found nofun)) other
  | _ => rfl

theorem same_display {m : Machine} {w : UInt16} (other : ¬ m.MayChange w .display) :
    m.displayAfter (decode w) = m.display := by
  cases found : decode w with
  | clear => exact absurd (.inl (fits_of_decode found nofun)) other
  | draw r s k => exact absurd (.inr (fits_of_decode found nofun).1) other
  | _ => rfl

theorem same_index {m : Machine} {w : UInt16} (other : ¬ m.MayChange w .index) :
    m.indexAfter (decode w) = m.index := by
  cases found : decode w with
  | setIndex nnn => exact absurd (.inl (fits_of_decode found nofun).1) other
  | addIndex r | glyph r =>
    obtain ⟨first, last, -⟩ := fits_of_decode found nofun
    exact absurd (.inr ⟨first, by simp [last]⟩) other
  | _ => rfl

/-- Only five operations have a flag. -/
theorem code_of_flag {op : Arithmetic} {a b f : UInt8} (flagged : (op.eval a b).2 = some f) :
    op.code.toNat ∈ [0x4, 0x5, 0x6, 0x7, 0xE] := by
  cases op with
  | copy | or | and | xor => cases flagged
  | _ => decide

theorem get_registersAfter (m : Machine) (r k : Digit) (result : UInt8 × Option UInt8) :
    (m.registersAfter r result).get k =
      if k = 0xF then result.2.getD (if r = k then result.1 else m.v.get k)
      else if r = k then result.1 else m.v.get k := by
  obtain ⟨value, _ | f⟩ := result
  · simp only [registersAfter, Table.get_set, Option.getD_none, ite_self]
  · simp only [registersAfter, Table.get_set, Option.getD_some, @eq_comm Digit 0xF k]

theorem same_register {m : Machine} {w : UInt16} {k : Digit} (other : ¬ m.MayChange w (.register k)) :
    (m.vAfter (decode w)).get k = m.v.get k := by
  cases found : decode w with
  | setByte r b | addByte r b | random r b =>
    obtain ⟨first, rfl, -⟩ := fits_of_decode found nofun
    have apart : x w ≠ k := fun here => other (.inl ⟨here.symm, .inl (by simp [first])⟩)
    simp only [vAfter, Table.get_set, if_neg apart]
  | readDelay r =>
    obtain ⟨first, last, rfl⟩ := fits_of_decode found nofun
    have apart : x w ≠ k := fun here => other (.inl ⟨here.symm, .inr (.inr ⟨first, by simp [last]⟩)⟩)
    simp only [vAfter, Table.get_set, if_neg apart]
  | awaitKey r =>
    obtain ⟨first, last, rfl⟩ := fits_of_decode found nofun
    have apart : x w ≠ k := fun here => other (.inl ⟨here.symm, .inr (.inr ⟨first, by simp [last]⟩)⟩)
    rw [vAfter]
    cases m.keypad.lowest? with
    | none => rfl
    | some d => simp only [Option.elim_some, Table.get_set, if_neg apart]
  | arithmetic op r s =>
    obtain ⟨first, code, rfl, rfl⟩ := fits_of_decode found nofun
    have apart : x w ≠ k := by
      intro here
      refine other (.inl ⟨here.symm, .inr (.inl ⟨first, ?_⟩)⟩)
      rw [← code]
      cases op <;> decide
    rw [vAfter, get_registersAfter, if_neg apart]
    cases flagged : (op.eval (m.v.get (x w)) (m.v.get (y w))).2 with
    | none => simp
    | some f =>
      have notFlag : k ≠ 0xF := fun last => other (.inr (.inl ⟨last, .inr ⟨first, code ▸ code_of_flag flagged⟩⟩))
      rw [if_neg notFlag]
  | draw r s j =>
    have first := (fits_of_decode found nofun).1
    have notFlag : (0xF : Digit) ≠ k := fun last => other (.inr (.inl ⟨last.symm, .inl first⟩))
    simp only [vAfter, Table.get_set, if_neg notFlag]
  | fill r =>
    obtain ⟨first, last, rfl⟩ := fits_of_decode found nofun
    have above : ¬ k ≤ x w := fun below => other (.inr (.inr ⟨below, first, last⟩))
    simp only [vAfter, Table.get_ofFn, if_neg above]
  | _ => rfl

theorem same_delay {m : Machine} {w : UInt16} (other : ¬ m.MayChange w .delay) :
    m.delayAfter (decode w) = m.delay := by
  cases found : decode w with
  | setDelay r =>
    obtain ⟨first, last, -⟩ := fits_of_decode found nofun
    exact absurd ⟨first, last⟩ other
  | _ => rfl

theorem same_sound {m : Machine} {w : UInt16} (other : ¬ m.MayChange w .sound) :
    m.soundAfter (decode w) = m.sound := by
  cases found : decode w with
  | setSound r =>
    obtain ⟨first, last, -⟩ := fits_of_decode found nofun
    exact absurd ⟨first, last⟩ other
  | _ => rfl

theorem same_random {m : Machine} {w : UInt16} (other : ¬ m.MayChange w .random) :
    m.randomAfter (decode w) = m.random := by
  cases found : decode w with
  | random r b => exact absurd (fits_of_decode found nofun).1 other
  | _ => rfl

/-! ## Whole cycles -/

theorem same_perform {m : Machine} {w : UInt16} {p : Part} (other : ¬ m.MayChange w p) :
    (m.perform (decode w)).Same m p := by
  rw [perform_eq]
  cases p with
  | byte place => exact same_byte other
  | fontBase => exact (congrArg (·.memory.fontBase) (m.perform_eq _)).symm.trans (m.fontBase_perform _)
  | slot i => exact same_slot other
  | pointer => exact same_pointer other
  | display => exact same_display other
  | index => exact same_index other
  | register k => exact same_register other
  | delay => exact same_delay other
  | sound => exact same_sound other
  | random => exact same_random other
  | pc | emptyRow => exact absurd trivial other
  | keypad | stopping => rfl

theorem same_cycle {m : Machine} {p : Part} (other : ¬ m.MayChange (m.wordAt m.pc) p) : m.cycle.machine.Same m p := by
  by_cases completes : m.Completes
  · rw [cycle_of_completes completes]
    have fetched : m.fetching.Same m p := by
      cases p with
      | pc | emptyRow => exact absurd trivial other
      | _ => rfl
    have otherThere : ¬ m.fetching.MayChange (m.wordAt m.pc) p := by
      cases p <;> exact other
    exact (same_perform otherThere).trans fetched
  · rw [cycle_of_incomplete completes]
    exact Same.refl m p

theorem emptyRow_cycle {m : Machine} (completes : m.Completes) :
    m.cycle.machine.emptyRow.toNat = if m.wordAt m.pc = 0 then m.emptyRow.toNat + 1 else 0 := by
  rw [cycle_of_completes completes, emptyRow_perform, fetching]
  by_cases isEmpty : m.wordAt m.pc = 0
  · have fewer := toNat_emptyRow_lt fun full => completes.2 ⟨isEmpty, full⟩
    simp only [if_pos isEmpty, UInt8.toNat_add, UInt8.reduceToNat]
    omega
  · simp only [if_neg isEmpty, UInt8.reduceToNat]

theorem cycle_of_random {m : Machine} (first : head (m.wordAt m.pc) = 0xC) :
    m.cycle.machine.random = m.random.tail ∧
      m.cycle.machine.v.get (x (m.wordAt m.pc)) = m.random.headD 0 &&& kk (m.wordAt m.pc) := by
  have fits : Fits (m.wordAt m.pc) (.random (x (m.wordAt m.pc)) (kk (m.wordAt m.pc))) := ⟨first, rfl, rfl⟩
  rw [(cycle_of_fits fits (by simp) (by simp)).2, perform_eq]
  refine ⟨rfl, ?_⟩
  simp only [vAfter, Table.get_set, if_true]
  rfl

theorem cycle_of_unfit {m : Machine} (unfit : ∀ i : Instruction, ¬ i.Fits (m.wordAt m.pc)) :
    m.cycle.machine = { m with pc := (m.pc + 2) % 4096, emptyRow := 0 } := by
  have found : m.next = .unknown (m.wordAt m.pc) := (decode_eq_unknown_iff _).mpr unfit
  have nonzero : m.wordAt m.pc ≠ 0 := unfit .empty
  rw [cycle_of_completes (completes_of_next (by simp [found]) (by simp [found])), found, fetching, if_neg nonzero,
    ← after_after]
  rfl

/-! ## What happens from outside -/

theorem same_tick {m : Machine} {p : Part} (notDelay : p ≠ .delay) (notSound : p ≠ .sound) : m.tick.Same m p := by
  cases p with
  | delay | sound => contradiction
  | _ => rfl

theorem same_load {m : Machine} {p : Part} (rom : Rom) (notByte : ∀ place, p ≠ .byte place) (notPc : p ≠ .pc) :
    (m.load rom).Same m p := by
  cases p with
  | byte place => exact absurd rfl (notByte place)
  | pc => contradiction
  | fontBase => exact Memory.fontBase_load _ _ _
  | _ => rfl

/-- A cycle changes only the parts of a machine that its word may change. If it comes to its end, it has counted an
empty word, or else ended their row; otherwise it has changed nothing. A random register takes exactly one byte
of the supply, and a word without a form changes only the program counter and the count. The timers alone are
changed by a tick, and memory and the program counter alone by a program that is loaded. There is nothing to a
machine but its parts. -/
theorem words_keep_to_their_footprint :
    (∀ m : Machine,
      (∀ p, ¬ m.MayChange (m.wordAt m.pc) p → m.cycle.machine.Same m p) ∧
      (m.Completes → m.cycle.machine.emptyRow.toNat = if m.wordAt m.pc = 0 then m.emptyRow.toNat + 1 else 0) ∧
      (¬ m.Completes → m.cycle.machine = m) ∧
      (head (m.wordAt m.pc) = 0xC → m.cycle.machine.random = m.random.tail ∧
        m.cycle.machine.v.get (x (m.wordAt m.pc)) = m.random.headD 0 &&& kk (m.wordAt m.pc)) ∧
      ((∀ i : Instruction, ¬ i.Fits (m.wordAt m.pc)) →
        m.cycle.machine = { m with pc := (m.pc + 2) % 4096, emptyRow := 0 }) ∧
      (∀ p, p ≠ .delay → p ≠ .sound → m.tick.Same m p) ∧
      ∀ rom p, (∀ place, p ≠ .byte place) → p ≠ .pc → (m.load rom).Same m p) ∧
    ∀ m n : Machine, (∀ p, m.Same n p) → m = n := by
  refine ⟨fun m => ⟨?_, ?_, ?_, ?_, ?_, ?_, ?_⟩, fun m n same => ext_parts same⟩
  · exact fun p other => same_cycle other
  · exact emptyRow_cycle
  · exact cycle_of_incomplete
  · exact cycle_of_random
  · exact cycle_of_unfit
  · exact fun p notDelay notSound => same_tick notDelay notSound
  · exact fun rom p notByte notPc => same_load rom notByte notPc

/-- A machine that stores three registers around the end of memory. -/
def storingAround : Machine :=
  { (fresh .default []).set 0x0 0xAA with
    index := 0xFFF, memory := (Memory.fresh 0x50).load programStart [0xF2, 0x55] }

theorem stores_around_the_end :
    ¬ storingAround.MayChange (storingAround.wordAt storingAround.pc) (.byte (Fin.ofNat 4096 0x002)) ∧
      storingAround.cycle.machine.Same storingAround (.byte (Fin.ofNat 4096 0x002)) ∧
      ¬ storingAround.cycle.machine.Same storingAround (.byte (Fin.ofNat 4096 0xFFF)) ∧ storingAround.Completes ∧
      storingAround.cycle.machine.emptyRow.toNat = 0 := by
  have word : storingAround.wordAt storingAround.pc = 0xF255 := by decide +kernel
  have outside : ¬ storingAround.MayChange 0xF255 (.byte (Fin.ofNat 4096 0x002)) := by
    rintro (⟨-, other, -⟩ | ⟨-, -, j, below, here⟩)
    · revert other
      decide
    · have two : j ≤ 2 := below
      have place : 2 = (4095 + j) % 4096 := here
      omega
  have completes : storingAround.Completes := by
    rw [completes_iff]
    decide +kernel
  obtain ⟨kept, counted, -⟩ := words_keep_to_their_footprint.1 storingAround
  rw [word] at kept counted
  refine ⟨word ▸ outside, kept _ outside, ?_, completes, counted completes⟩
  show ¬ storingAround.cycle.machine.memory.bytes.get (Fin.ofNat 4096 0xFFF) =
    storingAround.memory.bytes.get (Fin.ofNat 4096 0xFFF)
  decide +kernel

end Machine
end Chip8
