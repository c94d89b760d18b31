import Chip8.Proofs.History

/-!
# Rows of empty words

A machine halts on the fifth empty word in a row. What it counts is the row at the end of all words that were
ever executed (`emptyRow_through`), whatever else happened between them, up to the 255 that it can count. So
the outcome of a cycle can be read off the executed words alone (`halts_on_fifth_empty_word`).
-/

namespace Chip8

/-- The length of the row of empty words at the end. -/
def emptyRowAtEnd (words : List UInt16) : Nat := (words.reverse.takeWhile (· == 0)).length

theorem emptyRowAtEnd_concat (words : List UInt16) (w : UInt16) :
    emptyRowAtEnd (words ++ [w]) = if w = 0 then emptyRowAtEnd words + 1 else 0 := by
  by_cases isEmpty : w = 0 <;> simp [emptyRowAtEnd, isEmpty]

/-- A list begins with a row of at least so many empty words or it does not. -/
private theorem replicate_prefix_iff (n : Nat) (words : List UInt16) :
    List.replicate n 0 <+: words ↔ n ≤ (words.takeWhile (· == 0)).length := by
  induction words generalizing n with
  | nil => cases n <;> simp [List.replicate_succ]
  | cons w rest ih =>
    cases n with
    | zero => simp
    | succ n =>
      rw [List.replicate_succ, List.cons_prefix_cons]
      by_cases isEmpty : w = 0
      · simp [isEmpty, ih]
      · simp [isEmpty, Ne.symm isEmpty]

theorem suffix_iff_le_emptyRowAtEnd (n : Nat) (words : List UInt16) :
    List.replicate n 0 <:+ words ↔ n ≤ emptyRowAtEnd words := by
  rw [← List.reverse_prefix, List.reverse_replicate]
  exact replicate_prefix_iff n words.reverse

/-- Empty words behind a row make it longer. -/
theorem le_emptyRowAtEnd_append {n : Nat} {words more : List UInt16} (row : n ≤ emptyRowAtEnd words)
    (empty : ∀ w ∈ more, w = 0) : n ≤ emptyRowAtEnd (words ++ more) := by
  induction more generalizing words with
  | nil => simpa using row
  | cons w rest ih =>
    have longer : n ≤ emptyRowAtEnd (words ++ [w]) := by
      rw [emptyRowAtEnd_concat, if_pos (empty w (by simp))]
      omega
    rw [List.append_cons]
    exact ih longer fun v member => empty v (by simp [member])

namespace Machine

/-! ## What a cycle on an empty word does -/

/-- A cycle overflows on an empty word behind 255 that were counted. -/
theorem outcome_eq_overflow_iff (m : Machine) :
    m.cycle.outcome = .overflow ↔ m.wordAt m.pc = 0 ∧ m.emptyRow = 255 := by
  rw [← next_eq_empty_iff]
  rcases m.cycle_cases with ⟨isEmpty, full, eq⟩ | ⟨isEmpty, room, eq⟩ | ⟨other, -, eq⟩ | ⟨other, -, eq⟩ <;> rw [eq]
  · simp [isEmpty, full]
  · simp only [isEmpty, room, and_false, iff_false]
    split <;> simp
  · simp [other]
  · simp [other]

/-- A cycle halts on an empty word behind at least four that were counted. -/
theorem outcome_eq_halted_iff (m : Machine) :
    m.cycle.outcome = .halted ↔ m.wordAt m.pc = 0 ∧ 4 ≤ m.emptyRow.toNat ∧ m.emptyRow ≠ 255 := by
  rw [← next_eq_empty_iff]
  rcases m.cycle_cases with ⟨isEmpty, full, eq⟩ | ⟨isEmpty, room, eq⟩ | ⟨other, -, eq⟩ | ⟨other, -, eq⟩ <;> rw [eq]
  · simp [full]
  · have enough : emptyLimit ≤ m.emptyRow + 1 ↔ 4 ≤ m.emptyRow.toNat := by
      have fewer := toNat_emptyRow_lt room
      rw [UInt8.le_iff_toNat_le, UInt8.toNat_add]
      simp only [emptyLimit, UInt8.reduceToNat]
      omega
    by_cases four : 4 ≤ m.emptyRow.toNat <;> simp [isEmpty, room, enough, four]
  · simp [other]
  · simp [other]

/-- A cycle waits for a key and for nothing else. -/
theorem outcome_eq_waiting_iff (m : Machine) : m.cycle.outcome = .waiting ↔ m.wouldWait = true := by
  rcases m.cycle_cases with ⟨isEmpty, -, eq⟩ | ⟨isEmpty, -, eq⟩ | ⟨-, waits, eq⟩ | ⟨-, goes, eq⟩ <;> rw [eq]
  · simp [wouldWait_of_empty isEmpty]
  · simp only [wouldWait_of_empty isEmpty, Bool.false_eq_true, iff_false]
    split <;> simp
  · simp [waits]
  · simp [goes]

/-- Whether or not it halts, a cycle on an empty word only goes on by two addresses and counts. -/
theorem cycle_machine_of_empty {m : Machine} (isEmpty : m.wordAt m.pc = 0) (room : m.emptyRow ≠ 255) :
    m.cycle.machine = { m with pc := (m.pc + 2) % 4096, emptyRow := m.emptyRow + 1 } := by
  rw [← next_eq_empty_iff] at isEmpty
  rcases m.cycle_cases with ⟨-, full, -⟩ | ⟨-, -, eq⟩ | ⟨other, -, -⟩ | ⟨other, -, -⟩
  · contradiction
  · rw [eq, ← after_after]
    rfl
  · contradiction
  · contradiction

/-! ## The row that a machine counts -/

/-- The machine counts the row at the end of some words, as far as it can. -/
def Counts (m : Machine) (words : List UInt16) : Prop := m.emptyRow.toNat = min 255 (emptyRowAtEnd words)

theorem counts_fresh (config : Config) (random : List UInt8) : (fresh config random).Counts [] := rfl

theorem Counts.cycle {m : Machine} {words : List UInt16} (counts : m.Counts words) :
    (m.act .cycle).Counts (words ++ m.executes .cycle) := by
  unfold Counts at counts ⊢
  change m.cycle.machine.emptyRow.toNat = _
  simp only [executes]
  rcases m.cycle_cases with ⟨isEmpty, full, eq⟩ | ⟨isEmpty, room, eq⟩ | ⟨-, waits, eq⟩ | ⟨other, goes, eq⟩ <;> rw [eq]
  · rw [wouldWait_of_empty isEmpty, (next_eq_empty_iff m).mp isEmpty]
    simp only [Bool.false_eq_true, ↓reduceIte, emptyRowAtEnd_concat]
    -- The cycle fails and leaves the count full, while the row goes on.
    rw [full] at counts ⊢
    simp only [UInt8.reduceToNat] at counts ⊢
    omega
  · rw [wouldWait_of_empty isEmpty, (next_eq_empty_iff m).mp isEmpty]
    simp only [Bool.false_eq_true, ↓reduceIte, emptyRowAtEnd_concat]
    have fewer := toNat_emptyRow_lt room
    simp only [UInt8.toNat_add, UInt8.reduceToNat]
    omega
  · simpa [waits] using counts
  · have nonzero : m.wordAt m.pc ≠ 0 := fun zero => other ((next_eq_empty_iff m).mpr zero)
    simp only [goes, Bool.false_eq_true, ↓reduceIte, emptyRowAtEnd_concat, nonzero, emptyRow_perform]
    rfl

theorem Counts.act {m : Machine} {words : List UInt16} (counts : m.Counts words) (a : Action) :
    (m.act a).Counts (words ++ m.executes a) := by
  by_cases isCycle : a = .cycle
  · subst isCycle
    exact counts.cycle
  · rw [executes_outside m isCycle, List.append_nil]
    unfold Counts
    rw [emptyRow_act m isCycle]
    exact counts

theorem Counts.through {m : Machine} {words : List UInt16} (counts : m.Counts words) (h : List Action) :
    (m.through h).Counts (words ++ m.words h) := by
  induction h generalizing m words with
  | nil => simpa [Machine.through, Machine.words] using counts
  | cons a rest ih =>
    have later := ih (counts.act a)
    rwa [List.append_assoc] at later

/-- A machine counts the row of empty words at the end of its history, up to 255 of them. -/
theorem emptyRow_through (config : Config) (random : List UInt8) (h : List Action) :
    ((fresh config random).through h).Counts ((fresh config random).words h) :=
  (counts_fresh config random).through h

/-- In words of the history: there were so many empty words in a row just before. -/
theorem Counts.le_iff {m : Machine} {words : List UInt16} (counts : m.Counts words) {n : Nat} (small : n ≤ 255) :
    n ≤ m.emptyRow.toNat ↔ List.replicate n 0 <:+ words := by
  rw [suffix_iff_le_emptyRowAtEnd, counts]
  omega

theorem Counts.full_iff {m : Machine} {words : List UInt16} (counts : m.Counts words) :
    m.emptyRow = 255 ↔ List.replicate 255 0 <:+ words := by
  rw [← counts.le_iff (Nat.le_refl 255), ← UInt8.toNat_inj]
  have bound := m.emptyRow.toNat_lt
  simp only [UInt8.reduceToNat]
  omega

/-! ## Halting -/

theorem executes_cycle_of_empty {m : Machine} (isEmpty : m.wordAt m.pc = 0) : m.executes .cycle = [0] := by
  have goes := wouldWait_of_empty ((next_eq_empty_iff m).mpr isEmpty)
  simp [executes, goes, isEmpty]

/-- A machine that has not met 256 empty words in a row can count one more. -/
theorem Counts.room {m : Machine} {words : List UInt16} (counts : m.Counts words) (isEmpty : m.wordAt m.pc = 0)
    (short : ¬ List.replicate 256 0 <:+: words ++ m.executes .cycle) : m.emptyRow ≠ 255 := by
  intro full
  apply short
  rw [executes_cycle_of_empty isEmpty]
  have row := (suffix_iff_le_emptyRowAtEnd 255 words).mp (counts.full_iff.mp full)
  apply List.IsSuffix.isInfix
  rw [suffix_iff_le_emptyRowAtEnd, emptyRowAtEnd_concat, if_pos rfl]
  omega

/-- A machine that halted has a row of five behind it. -/
theorem Counts.four_le_of_halted {m : Machine} {words : List UInt16} (counts : m.Counts words)
    (halted : m.cycle.outcome = .halted) : 4 ≤ emptyRowAtEnd (words ++ m.executes .cycle) := by
  obtain ⟨isEmpty, four, -⟩ := (outcome_eq_halted_iff m).mp halted
  rw [executes_cycle_of_empty isEmpty, emptyRowAtEnd_concat, if_pos rfl]
  unfold Counts at counts
  omega

/-- Behind any history of a fresh machine without 256 empty words in a row, a cycle halts if its word and the
four words executed before it are empty, and in no other case; a cycle that does not wait for a key is done
otherwise. So a machine that halted halts again on each further empty word of the row. On an empty word
nothing changes but the program counter and the count, whether or not it halts. -/
theorem halts_on_fifth_empty_word (config : Config) (random : List UInt8) (h : List Action)
    (short : ¬ List.replicate 256 0 <:+: (fresh config random).words (h ++ [.cycle])) :
    let start := fresh config random
    let m := start.through h
    (m.cycle.outcome = .halted ↔ m.wordAt m.pc = 0 ∧ List.replicate 4 0 <:+ start.words h) ∧
    (m.cycle.outcome = .done ↔
      m.wouldWait = false ∧ ¬ (m.wordAt m.pc = 0 ∧ List.replicate 4 0 <:+ start.words h)) ∧
    (∀ g k, h = g ++ .cycle :: k → (start.through g).cycle.outcome = .halted →
      (∀ w ∈ (start.through (g ++ [.cycle])).words k, w = 0) → m.wordAt m.pc = 0 → m.cycle.outcome = .halted) ∧
    (m.wordAt m.pc = 0 → m.cycle.machine = { m with pc := (m.pc + 2) % 4096, emptyRow := m.emptyRow + 1 }) := by
  intro start m
  have counts : m.Counts (start.words h) := emptyRow_through config random h
  rw [words_append, words_singleton] at short
  have halted : m.cycle.outcome = .halted ↔ m.wordAt m.pc = 0 ∧ List.replicate 4 0 <:+ start.words h := by
    rw [outcome_eq_halted_iff, ← counts.le_iff (by decide)]
    constructor
    · rintro ⟨isEmpty, four, -⟩
      exact ⟨isEmpty, four⟩
    · rintro ⟨isEmpty, four⟩
      exact ⟨isEmpty, four, counts.room isEmpty short⟩
  refine ⟨halted, ?_, ?_, fun isEmpty => cycle_machine_of_empty isEmpty (counts.room isEmpty short)⟩
  · rw [← halted, ← Bool.not_eq_true, ← outcome_eq_waiting_iff]
    have noOverflow : m.cycle.outcome ≠ .overflow := by
      intro overflow
      obtain ⟨isEmpty, full⟩ := (outcome_eq_overflow_iff m).mp overflow
      exact counts.room isEmpty short full
    cases out : m.cycle.outcome with
    | overflow => contradiction
    | _ => simp
  · intro g k split haltedBefore empty isEmpty
    have countsBefore : (start.through g).Counts (start.words g) := emptyRow_through config random g
    have four := le_emptyRowAtEnd_append (countsBefore.four_le_of_halted haltedBefore) empty
    have past : start.words h = start.words g ++ (start.through g).executes .cycle ++
        (start.through (g ++ [.cycle])).words k := by
      rw [split, List.append_cons, words_append, words_append, words_singleton]
    rw [halted, past, suffix_iff_le_emptyRowAtEnd]
    exact ⟨isEmpty, four⟩

/-- An unknown word, then four empty words with a tick, a key and another program between them. -/
def fourEmptyWords : List Action :=
  [.load [0x81, 0x2F], .cycle, .cycle, .tick, .cycle, .touch (.press 3), .cycle, .load [0x00, 0x00], .cycle]

theorem halts_after_fourEmptyWords :
    ¬ List.replicate 256 0 <:+: (fresh .default []).words (fourEmptyWords ++ [.cycle]) ∧
      ((fresh .default []).through fourEmptyWords).cycle.outcome = .halted := by
  have short : ¬ List.replicate 256 0 <:+: (fresh .default []).words (fourEmptyWords ++ [.cycle]) := by
    decide +kernel
  exact ⟨short, (halts_on_fifth_empty_word .default [] fourEmptyWords short).1.mpr (by decide +kernel)⟩

end Machine
end Chip8
