import Chip8.Proofs.Checked.Cycle
import Chip8.Proofs.EmptyRows
import Chip8.Proofs.Moves
import Mathlib.Data.List.Infix

/-!
# No failure

With every operation checked, a cycle fails in one case only: it counts the 256th empty word in a row
(`only_the_256th_empty_word_fails`). A machine that is not driven on after it has halted never gets there, as it
never has more than four empty words in a row behind it (`Run.Sound`).
-/

namespace Chip8

/-! ## Short rows -/

namespace Machine

/-- A short row can be counted on. -/
theorem room_of_short {m : Machine} (short : m.emptyRow.toNat ≤ 4) : m.emptyRow ≠ 255 := by
  intro full
  rw [full] at short
  exact absurd short (by decide)

/-- A row that is short stays so unless the cycle halts. -/
theorem short_cycle {m : Machine} (short : m.emptyRow.toNat ≤ 4) (goes : m.cycle.outcome ≠ .halted) :
    m.cycle.machine.emptyRow.toNat ≤ 4 := by
  rw [ne_eq, outcome_eq_halted_iff] at goes
  rcases m.cycle_cases with ⟨-, -, eq⟩ | ⟨isEmpty, room, eq⟩ | ⟨-, -, eq⟩ | ⟨-, -, eq⟩ <;> rw [eq]
  · exact short
  · have fewer : ¬ 4 ≤ m.emptyRow.toNat := fun four => goes ⟨(next_eq_empty_iff m).mp isEmpty, four, room⟩
    show (m.emptyRow + 1).toNat ≤ 4
    simp only [UInt8.toNat_add, UInt8.reduceToNat]
    omega
  · exact short
  · rw [emptyRow_perform]
    exact Nat.zero_le 4

/-- The row of a machine on which no cycle has halted is short. -/
theorem short_through {m : Machine} (short : m.emptyRow.toNat ≤ 4) (h : List Action)
    (goes : ∀ g k, h = g ++ .cycle :: k → (m.through g).cycle.outcome ≠ .halted) :
    (m.through h).emptyRow.toNat ≤ 4 := by
  induction h generalizing m with
  | nil => exact short
  | cons a rest ih =>
    refine ih ?_ fun g k split => goes (a :: g) k (by rw [split, List.cons_append])
    by_cases isCycle : a = .cycle
    · subst isCycle
      exact short_cycle short (goes [] rest rfl)
    · rw [emptyRow_act m isCycle]
      exact short

end Machine

/-! ## Checked cycles -/

namespace Checked

theorem execute_eq_error_iff (m : Machine) (w : UInt16) (fault : Fault) :
    execute m w = .error fault ↔ fault = .overflow ∧ w = 0 ∧ m.emptyRow = 255 := by
  rw [execute_eq]
  split
  case isTrue fails =>
    constructor
    · intro same
      cases same
      exact ⟨rfl, fails⟩
    · rintro ⟨rfl, -⟩
      rfl
  case isFalse goes =>
    constructor
    · intro same
      cases same
    · rintro ⟨-, fails⟩
      exact absurd fails goes

theorem execute_eq_ok {m : Machine} (short : m.emptyRow.toNat ≤ 4) (w : UInt16) :
    execute m w = .ok (m.attempt (Instruction.decode w)) := by
  rw [execute_eq, if_neg]
  rintro ⟨-, full⟩
  exact Machine.room_of_short short full

theorem cycle_eq_ok {m : Machine} (short : m.emptyRow.toNat ≤ 4) :
    cycle m = .ok (m.cycle.machine, m.cycle.outcome) := by
  rw [cycle_eq, if_neg]
  rw [Machine.outcome_eq_overflow_iff]
  rintro ⟨-, full⟩
  exact Machine.room_of_short short full

end Checked

/-! ## Runs -/

namespace Run

/-- The run has halted, or its machine has a short row and the run is not broken. -/
def Sound (r : Run) : Prop :=
  r.phase = .ended .halted ∨ (r.phase ≠ .ended .broken ∧ r.machine.emptyRow.toNat ≤ 4)

theorem Sound.cycle {r : Run} (due : r.phase = .cycling) (short : r.machine.emptyRow.toNat ≤ 4) : r.cycle.Sound := by
  rcases r.cycle_cases with ⟨out, eq⟩ | ⟨-, eq⟩ | ⟨-, eq⟩ | ⟨out, -⟩
  · rw [eq]
    exact .inr ⟨by simp [cycled], Machine.short_cycle short (by simp [out])⟩
  · rw [eq]
    exact .inl rfl
  · rw [eq]
    exact .inr ⟨by simp [due], short⟩
  · obtain ⟨-, full⟩ := (Machine.outcome_eq_overflow_iff _).mp out
    exact absurd full (Machine.room_of_short short)

theorem Sound.step {r : Run} (sound : r.Sound) (now : Nat) : (r.step now).Sound := by
  rcases sound with halted | ⟨whole, short⟩
  · refine .inl ?_
    rw [Run.step, halted]
    exact halted
  · unfold Run.step
    cases phase : r.phase with
    | polling =>
      dsimp only
      unfold poll
      split
      · exact .inr ⟨by simp, short⟩
      · refine .inr ⟨?_, short⟩
        dsimp only
        split <;> simp
    | cycling => exact Sound.cycle phase short
    | ticking =>
      dsimp only
      unfold tick
      split
      · exact .inr ⟨by simp, short⟩
      · exact .inr ⟨by simp, short⟩
    | ended how => exact .inr ⟨whole, short⟩

theorem Sound.move {r : Run} (sound : r.Sound) (a : Move) : (r.move a).Sound := by
  cases a with
  | step now => exact sound.step now
  | touch t =>
    rcases sound with halted | ⟨whole, short⟩
    · exact .inl halted
    · refine .inr ⟨whole, ?_⟩
      show (r.machine.act (.touch t)).emptyRow.toNat ≤ 4
      rw [Machine.emptyRow_act _ (by simp)]
      exact short

theorem Sound.after {r : Run} (sound : r.Sound) (moves : List Move) : (r.after moves).Sound :=
  after_induction (fun _ a kept => kept.move a) sound moves

end Run

/-- Behind any history of a fresh machine and for any word at all, no check fails but one: that of the count of
empty words, and it fails if the word is empty and the 255 words executed before it were. A cycle that does not
fail comes to what the plain cycle comes to. So a machine of which no cycle has halted cannot fail, and neither
can a run of it, which takes no cycle after one that halts. -/
theorem only_the_256th_empty_word_fails (config : Config) (random : List UInt8) (h : List Action) :
    let start := Machine.fresh config random
    let m := start.through h
    (∀ w fault, Checked.execute m w = .error fault ↔
      fault = .overflow ∧ w = 0 ∧ List.replicate 255 0 <:+ start.words h) ∧
    (∀ fault, Checked.cycle m = .error fault ↔
      fault = .overflow ∧ m.wordAt m.pc = 0 ∧ List.replicate 255 0 <:+ start.words h) ∧
    (∀ result, Checked.cycle m = .ok result → result = (m.cycle.machine, m.cycle.outcome)) ∧
    ((∀ g k, h = g ++ .cycle :: k → (start.through g).cycle.outcome ≠ .halted) →
      (∀ w, ∃ result, Checked.execute m w = .ok result) ∧
      ∀ clock now log moves,
        let r := (Run.start m clock now log).after moves
        r.phase ≠ .ended .broken ∧
          (r.phase = .cycling → ∃ result, Checked.cycle r.machine = .ok result)) := by
  intro start m
  have counts : m.Counts (start.words h) := Machine.emptyRow_through config random h
  refine ⟨?_, ?_, ?_, ?_⟩
  · intro w fault
    rw [Checked.execute_eq_error_iff, counts.full_iff]
  · intro fault
    rw [Checked.cycle_eq_execute, Checked.execute_eq_error_iff, counts.full_iff]
  · intro result done
    rw [Checked.cycle_eq] at done
    split at done
    · cases done
    · exact (Except.ok.inj done).symm
  · intro goes
    have begins : start.emptyRow.toNat ≤ 4 := Nat.zero_le 4
    have short : m.emptyRow.toNat ≤ 4 := Machine.short_through begins h goes
    refine ⟨fun w => ⟨_, Checked.execute_eq_ok short w⟩, ?_⟩
    intro clock now log moves r
    have fresh : (Run.start m clock now log).Sound := .inr ⟨by simp [Run.start], short⟩
    rcases fresh.after moves with halted | ⟨whole, shortStill⟩
    · change r.phase = .ended .halted at halted
      simp [halted]
    · exact ⟨whole, fun _ => ⟨_, Checked.cycle_eq_ok shortStill⟩⟩

/-- A run of a machine with four empty words behind it, where a cycle that finds a fifth is due. -/
def beforeFifthEmptyWord : Run :=
  (Run.start ((Machine.fresh .default []).through Machine.fourEmptyWords) 500 0 #[]).after
    [.step 0, .step 0, .step 2000000]

theorem fifth_empty_word_halts_without_failure :
    (∃ result, Checked.execute ((Machine.fresh .default []).through Machine.fourEmptyWords) 0 = .ok result) ∧
      beforeFifthEmptyWord.phase = .cycling ∧
      (∃ result, Checked.cycle beforeFifthEmptyWord.machine = .ok result) ∧
      (beforeFifthEmptyWord.step 2000000).phase = .ended .halted := by
  have shorter : ∀ g ∈ Machine.fourEmptyWords.dropLast.inits,
      ((Machine.fresh .default []).through g).cycle.outcome ≠ .halted := by decide +kernel
  have goes : ∀ g k, Machine.fourEmptyWords = g ++ .cycle :: k →
      ((Machine.fresh .default []).through g).cycle.outcome ≠ .halted := by
    intro g k split
    have begins : g <+: Machine.fourEmptyWords.dropLast := by
      rw [split, List.dropLast_append_of_ne_nil (List.cons_ne_nil _ _)]
      exact List.prefix_append g _
    exact shorter g ((List.mem_inits _ _).mpr begins)
  have due : beforeFifthEmptyWord.phase = .cycling := by decide +kernel
  obtain ⟨executes, runs⟩ := (only_the_256th_empty_word_fails .default [] Machine.fourEmptyWords).2.2.2 goes
  exact ⟨executes 0, due, (runs 500 0 #[] [.step 0, .step 0, .step 2000000]).2 due, by decide +kernel⟩

end Chip8
