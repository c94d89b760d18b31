import Chip8.Proofs.History

/-!
# Control flow

Where a word leads can be read off its digits (`Machine.target`), relative to the address at which it stands and
around the end of memory. A cycle that comes to its end goes there (`Machine.pc_cycle`).
-/

namespace Chip8

/-- Two words that skip on opposite conditions. -/
def Word.Opposite (u w : UInt16) : Prop :=
  (head u = 0x3 ∧ head w = 0x4 ∧ x u = x w ∧ kk u = kk w) ∨
  (head u = 0x5 ∧ head w = 0x9 ∧ n u = 0 ∧ n w = 0 ∧ x u = x w ∧ y u = y w) ∨
  (head u = 0xE ∧ head w = 0xE ∧ kk u = 0x9E ∧ kk w = 0xA1 ∧ x u = x w)

namespace Machine
open Word Instruction

theorem toNat_wordAt (m : Machine) (a : UInt16) :
    (m.wordAt a).toNat = 256 * (m.memory.fetch a).toNat + (m.memory.fetch ((a + 1) % 4096)).toNat := by
  have low := (m.memory.fetch (after a)).toNat_lt
  have high := (m.memory.fetch a).toNat_lt
  have shifted : ((m.memory.fetch a).toUInt16 <<< 8).toNat = (m.memory.fetch a).toNat <<< 8 := by
    simp only [UInt16.toNat_shiftLeft, UInt8.toNat_toUInt16, UInt16.reduceToNat, Nat.reduceMod, Nat.shiftLeft_eq]
    omega
  rw [wordAt, UInt16.toNat_or, shifted, UInt8.toNat_toUInt16, ← Nat.shiftLeft_add_eq_or_of_lt low, Nat.shiftLeft_eq,
    Nat.mul_comm]
  rfl

/-- Whether a word skips the one behind it. -/
def skipsOn (m : Machine) (w : UInt16) : Bool :=
  match head w with
  | 0x3 => m.v.get (x w) == kk w
  | 0x4 => m.v.get (x w) != kk w
  | 0x5 => n w == 0 && m.v.get (x w) == m.v.get (y w)
  | 0x9 => n w == 0 && m.v.get (x w) != m.v.get (y w)
  | 0xE => (kk w == 0x9E && m.keypad.isDown (m.v.get (x w))) || (kk w == 0xA1 && !m.keypad.isDown (m.v.get (x w)))
  | _ => false

/-- Where a word at the program counter leads. -/
def target (m : Machine) (w : UInt16) : UInt16 :=
  match head w with
  | 0x0 => if w = 0x00EE then m.stack.slots.get m.stack.pointer else (m.pc + 2) % 4096
  | 0x1 | 0x2 => nnn w
  | 0xB => (nnn w + (m.v.get 0).toUInt16) % 4096
  | _ => if m.skipsOn w then (m.pc + 4) % 4096 else (m.pc + 2) % 4096

/-- Going on from an address inside memory is going on from the address that was reduced to it. -/
theorem mod_add_mod (a j k : UInt16) : ((a + j) % 4096 + k) % 4096 = (a + (j + k)) % 4096 := by
  apply UInt16.toNat_inj.mp
  simp only [UInt16.toNat_mod, UInt16.toNat_add, UInt16.reduceToNat]
  omega

theorem target_of_unfit {m : Machine} {w : UInt16} (unfit : ∀ i : Instruction, ¬ i.Fits w) :
    m.target w = (m.pc + 2) % 4096 := by
  have returns : w ≠ 0x00EE := unfit .ret
  unfold target
  split
  case h_1 => rw [if_neg returns]
  case h_2 first => exact absurd ⟨first, rfl⟩ (unfit (.jump (nnn w)))
  case h_3 first => exact absurd ⟨first, rfl⟩ (unfit (.call (nnn w)))
  case h_4 first => exact absurd ⟨first, rfl⟩ (unfit (.jumpFrom (nnn w)))
  case h_5 =>
    have stays : m.skipsOn w = false := by
      unfold skipsOn
      split
      case h_1 first => exact absurd ⟨first, rfl, rfl⟩ (unfit (.skipIfByte (x w) (kk w)))
      case h_2 first => exact absurd ⟨first, rfl, rfl⟩ (unfit (.skipUnlessByte (x w) (kk w)))
      case h_3 first =>
        have last : n w ≠ 0 := fun last => unfit (.skipIfSame (x w) (y w)) ⟨first, last, rfl, rfl⟩
        simp [last]
      case h_4 first =>
        have last : n w ≠ 0 := fun last => unfit (.skipUnlessSame (x w) (y w)) ⟨first, last, rfl, rfl⟩
        simp [last]
      case h_5 first =>
        have held : kk w ≠ 0x9E := fun last => unfit (.skipIfHeld (x w)) ⟨first, last, rfl⟩
        have notHeld : kk w ≠ 0xA1 := fun last => unfit (.skipUnlessHeld (x w)) ⟨first, last, rfl⟩
        simp [held, notHeld]
      case h_6 => rfl
    simp [stays]

theorem pcAfter_decode (m : Machine) (w : UInt16) : m.advance.pcAfter (decode w) = m.target w := by
  have next : m.advance.pc = (m.pc + 2) % 4096 := after_after m.pc
  have skipping {i : Instruction} {c : Bool} (same : m.advance.skips i = c) :
      (if m.advance.skips i then after (after m.advance.pc) else m.advance.pc) =
        if c then (m.pc + 4) % 4096 else (m.pc + 2) % 4096 := by
    rw [same, after_after, next, mod_add_mod]
    rfl
  cases found : decode w with
  | unknown v =>
    have isUnknown : decode w = .unknown w := (fits_decode w).resolve_left (by simp [found, Fits])
    rw [target_of_unfit ((decode_eq_unknown_iff w).mp isUnknown), ← next]
    rfl
  | empty | clear =>
    cases fits_of_decode found nofun
    exact next
  | ret =>
    cases fits_of_decode found nofun
    rfl
  | jump a | call a | jumpFrom a =>
    obtain ⟨first, rfl⟩ := fits_of_decode found nofun
    simp only [target, first]
    rfl
  | skipIfByte r b | skipUnlessByte r b =>
    obtain ⟨first, rfl, rfl⟩ := fits_of_decode found nofun
    simp only [target, first, skipsOn]
    exact skipping rfl
  | skipIfSame r s | skipUnlessSame r s =>
    obtain ⟨first, last, rfl, rfl⟩ := fits_of_decode found nofun
    simp only [target, first, skipsOn, last]
    exact skipping rfl
  | skipIfHeld r =>
    obtain ⟨first, last, rfl⟩ := fits_of_decode found nofun
    simp only [target, first, skipsOn, last]
    exact skipping (Bool.or_false _).symm
  | skipUnlessHeld r =>
    obtain ⟨first, last, rfl⟩ := fits_of_decode found nofun
    simp only [target, first, skipsOn, last]
    exact skipping rfl
  | _ =>
    have first := (fits_of_decode found nofun).1
    simp only [target, first, skipsOn]
    exact next

/-! ## Cycles -/

theorem pc_cycle {m : Machine} (completes : m.Completes) : m.cycle.machine.pc = m.target (m.wordAt m.pc) := by
  rw [cycle_of_completes completes, perform_eq, ← pcAfter_decode]
  rfl

theorem stack_cycle_of_call {m : Machine} (first : head (m.wordAt m.pc) = 0x2) :
    m.cycle.machine.stack = m.stack.push ((m.pc + 2) % 4096) := by
  have fits : Fits (m.wordAt m.pc) (.call (nnn (m.wordAt m.pc))) := ⟨first, rfl⟩
  rw [(cycle_of_fits fits (by simp) (by simp)).2, perform_eq, ← after_after]
  rfl

/-- A word with another first digit than zero and the last one completes. -/
theorem completes_of_head {m : Machine} (nonzero : head (m.wordAt m.pc) ≠ 0x0) (other : head (m.wordAt m.pc) ≠ 0xF) :
    m.Completes := by
  refine completes_of_next (fun isEmpty => nonzero ?_) fun r awaits => other ?_
  · rw [(next_eq_empty_iff m).mp isEmpty]
    rfl
  · exact (fits_of_decode awaits nofun).1

/-! ## Skips -/

theorem target_of_skip {m : Machine} {w : UInt16} (first : head w ∈ [0x3, 0x4, 0x5, 0x9, 0xE]) :
    m.target w = if m.skipsOn w then (m.pc + 4) % 4096 else (m.pc + 2) % 4096 := by
  simp only [List.mem_cons, List.not_mem_nil, or_false] at first
  rcases first with first | first | first | first | first <;> simp only [target, first]

theorem pc_cycle_of_skip {m : Machine} (first : head (m.wordAt m.pc) ∈ [0x3, 0x4, 0x5, 0x9, 0xE]) :
    m.cycle.machine.pc = if m.skipsOn (m.wordAt m.pc) then (m.pc + 4) % 4096 else (m.pc + 2) % 4096 := by
  have completes : m.Completes := by
    apply completes_of_head
    · intro zero
      simp [zero] at first
    · intro last
      simp [last] at first
  rw [pc_cycle completes, target_of_skip first]

theorem skipsOn_opposite (m : Machine) {u w : UInt16} (opposite : Opposite u w) : m.skipsOn w = !m.skipsOn u := by
  rcases opposite with ⟨first, second, sameX, sameK⟩ | ⟨first, second, last, lastToo, sameX, sameY⟩ |
    ⟨first, second, last, lastToo, sameX⟩
  · simp only [skipsOn, first, second, ← sameX, ← sameK, bne]
  · simp only [skipsOn, first, second, last, lastToo, ← sameX, ← sameY, bne]
    rfl
  · simp [skipsOn, first, second, last, lastToo, ← sameX]

theorem heads_of_opposite {u w : UInt16} (opposite : Opposite u w) :
    head u ∈ [0x3, 0x4, 0x5, 0x9, 0xE] ∧ head w ∈ [0x3, 0x4, 0x5, 0x9, 0xE] := by
  rcases opposite with ⟨first, second, -⟩ | ⟨first, second, -⟩ | ⟨first, second, -⟩ <;> simp [first, second]

/-- Of two cycles from the same state on opposite words, one skips and the other does not. -/
theorem one_of_opposite_skips (m : Machine) (memory : Memory)
    (opposite : Opposite (m.wordAt m.pc) ({ m with memory := memory }.wordAt m.pc)) :
    (m.cycle.machine.pc = (m.pc + 4) % 4096 ∧ { m with memory := memory }.cycle.machine.pc = (m.pc + 2) % 4096) ∨
    (m.cycle.machine.pc = (m.pc + 2) % 4096 ∧ { m with memory := memory }.cycle.machine.pc = (m.pc + 4) % 4096) := by
  obtain ⟨first, second⟩ := heads_of_opposite opposite
  have here := pc_cycle_of_skip first
  have there := pc_cycle_of_skip (m := { m with memory := memory }) second
  have turned := skipsOn_opposite m opposite
  change { m with memory := memory }.cycle.machine.pc =
    if m.skipsOn ({ m with memory := memory }.wordAt m.pc) then (m.pc + 4) % 4096 else (m.pc + 2) % 4096 at there
  rw [here, there, turned]
  cases m.skipsOn (m.wordAt m.pc) with
  | true => exact .inl ⟨rfl, rfl⟩
  | false => exact .inr ⟨rfl, rfl⟩

/-! ## A register that is set and then asked for -/

/-- Neither ticks nor other threads reach the program counter, the memory or the registers. -/
theorem through_quiet (m : Machine) {h : List Action} (quiet : ∀ a ∈ h, a = .tick ∨ ∃ t, a = .touch t) :
    (m.through h).pc = m.pc ∧ (m.through h).memory = m.memory ∧ (m.through h).v = m.v := by
  induction h generalizing m with
  | nil => exact ⟨rfl, rfl, rfl⟩
  | cons a rest ih =>
    obtain ⟨pc, memory, v⟩ := ih (m.act a) fun b member => quiet b (List.mem_cons_of_mem a member)
    rw [through, pc, memory, v]
    rcases quiet a List.mem_cons_self with rfl | ⟨t, rfl⟩
    · exact ⟨rfl, rfl, rfl⟩
    · rw [act, touch_eq]
      exact ⟨rfl, rfl, rfl⟩

theorem after_setByte (m : Machine) (first : head (m.wordAt m.pc) = 0x6) {h : List Action}
    (quiet : ∀ a ∈ h, a = .tick ∨ ∃ t, a = .touch t) :
    let n := (m.act .cycle).through h
    n.pc = (m.pc + 2) % 4096 ∧ n.wordAt n.pc = m.wordAt ((m.pc + 2) % 4096) ∧
      n.v.get (x (m.wordAt m.pc)) = kk (m.wordAt m.pc) := by
  have fits : Fits (m.wordAt m.pc) (.setByte (x (m.wordAt m.pc)) (kk (m.wordAt m.pc))) := ⟨first, rfl, rfl⟩
  have set : m.act .cycle = m.fetching.perform _ := (cycle_of_fits fits (by simp) (by simp)).2
  obtain ⟨pc, memory, v⟩ := (m.act .cycle).through_quiet quiet
  have next : ((m.act .cycle).through h).pc = (m.pc + 2) % 4096 := by
    rw [pc, set]
    exact after_after m.pc
  refine ⟨next, ?_, ?_⟩
  · rw [next, wordAt, memory, set]
    rfl
  · rw [v, set, perform_eq]
    simp only [vAfter, Table.get_set, if_true]

theorem set_then_skip (m : Machine) {h : List Action} (quiet : ∀ a ∈ h, a = .tick ∨ ∃ t, a = .touch t)
    (first : head (m.wordAt m.pc) = 0x6) (sameX : x (m.wordAt ((m.pc + 2) % 4096)) = x (m.wordAt m.pc))
    (sameK : kk (m.wordAt ((m.pc + 2) % 4096)) = kk (m.wordAt m.pc)) :
    (head (m.wordAt ((m.pc + 2) % 4096)) = 0x3 → (m.through (.cycle :: h ++ [.cycle])).pc = (m.pc + 6) % 4096) ∧
    (head (m.wordAt ((m.pc + 2) % 4096)) = 0x4 → (m.through (.cycle :: h ++ [.cycle])).pc = (m.pc + 4) % 4096) := by
  obtain ⟨pc, word, value⟩ := m.after_setByte first quiet
  have last : m.through (.cycle :: h ++ [.cycle]) = ((m.act .cycle).through h).cycle.machine := by
    rw [List.cons_append, through, through_append]
    rfl
  rw [last]
  constructor
  · intro second
    rw [pc_cycle_of_skip (by simp [word, second]), word, skipsOn, second]
    simp only [sameX, sameK, value, beq_self_eq_true, if_true]
    rw [pc, mod_add_mod]
    rfl
  · intro second
    rw [pc_cycle_of_skip (by simp [word, second]), word, skipsOn, second]
    simp only [sameX, sameK, value, bne_self_eq_false, Bool.false_eq_true, if_false]
    rw [pc, mod_add_mod]
    rfl

/-- A cycle takes the word at the program counter, high byte first, and goes where the word leads. It comes to its end
with the outcomes of a cycle that was done or halted. A call pushes the address behind it. Of two words with
opposite conditions, one skips from a given state and the other does not, and a register that was just set is
found to be what it was set to, whatever happens between the two words but for a program that is loaded. -/
theorem words_lead_to_their_targets (m : Machine) :
    (m.wordAt m.pc).toNat = 256 * (m.memory.fetch m.pc).toNat + (m.memory.fetch ((m.pc + 1) % 4096)).toNat ∧
    (m.Completes ↔ m.cycle.outcome = .done ∨ m.cycle.outcome = .halted) ∧
    (m.Completes → m.cycle.machine.pc = m.target (m.wordAt m.pc)) ∧
    (head (m.wordAt m.pc) = 0x2 → m.cycle.machine.stack = m.stack.push ((m.pc + 2) % 4096)) ∧
    (∀ memory, Opposite (m.wordAt m.pc) ({ m with memory := memory }.wordAt m.pc) →
      (m.cycle.machine.pc = (m.pc + 4) % 4096 ∧ { m with memory := memory }.cycle.machine.pc = (m.pc + 2) % 4096) ∨
      (m.cycle.machine.pc = (m.pc + 2) % 4096 ∧ { m with memory := memory }.cycle.machine.pc = (m.pc + 4) % 4096)) ∧
    ∀ h : List Action, (∀ a ∈ h, a = .tick ∨ ∃ t, a = .touch t) → head (m.wordAt m.pc) = 0x6 →
      x (m.wordAt ((m.pc + 2) % 4096)) = x (m.wordAt m.pc) → kk (m.wordAt ((m.pc + 2) % 4096)) = kk (m.wordAt m.pc) →
      (head (m.wordAt ((m.pc + 2) % 4096)) = 0x3 → (m.through (.cycle :: h ++ [.cycle])).pc = (m.pc + 6) % 4096) ∧
      (head (m.wordAt ((m.pc + 2) % 4096)) = 0x4 → (m.through (.cycle :: h ++ [.cycle])).pc = (m.pc + 4) % 4096) := by
  refine ⟨m.toNat_wordAt m.pc, m.completes_iff, pc_cycle, stack_cycle_of_call, m.one_of_opposite_skips, ?_⟩
  intro h quiet first sameX sameK
  exact m.set_then_skip quiet first sameX sameK

/-- A machine with a word in the last and the first place of memory, and a skip behind it. -/
def atTheEnd : Machine :=
  { fresh .default [] with pc := 0xFFF, memory := (Memory.fresh 0x50).load 0xFFF [0x63, 0x2A, 0x33, 0x2A] }

theorem skips_across_the_end :
    atTheEnd.wordAt 0xFFF = 0x632A ∧ atTheEnd.wordAt 0x001 = 0x332A ∧
      (atTheEnd.through [.cycle, .tick, .cycle]).pc = 0x005 := by
  have words : atTheEnd.wordAt 0xFFF = 0x632A ∧ atTheEnd.wordAt 0x001 = 0x332A := by decide +kernel
  have first : atTheEnd.wordAt atTheEnd.pc = 0x632A := words.1
  have second : atTheEnd.wordAt ((atTheEnd.pc + 2) % 4096) = 0x332A := words.2
  obtain ⟨-, -, -, -, -, straight⟩ := words_lead_to_their_targets atTheEnd
  rw [first, second] at straight
  have quiet : ∀ a ∈ [Action.tick], a = .tick ∨ ∃ t, a = .touch t := by simp
  exact ⟨words.1, words.2, (straight [.tick] quiet rfl rfl rfl).1 rfl⟩

end Machine
end Chip8
