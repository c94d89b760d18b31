import Chip8.Proofs.EmptyRows

/-!
# What cycles report

Each cycle reports something of the word that it executes or nothing (`Machine.notes`). What is to be said of a word
depends on where it stands and on the words executed before it (`tell`), and that is what the lines say as long as a
machine can count its empty words (`Machine.lines_eq_tale`).
-/

namespace Chip8

namespace Event

theorem line_emptyWord (address : UInt16) (row : UInt8) :
    (emptyWord address row).line =
      "DEBUG Empty instruction at " ++ Hex.address address ++ " (" ++ toString row.toNat ++ " in a row)" := by
  show "DEBUG" ++ " " ++
    ("Empty instruction at " ++ Hex.address address ++ " (" ++ toString row.toNat ++ " in a row)") = _
  simp [← String.append_assoc]

theorem line_unknownWord (word address : UInt16) :
    (unknownWord word address).line =
      "WARN Unknown instruction " ++ Hex.padded 4 word.toNat ++ " at " ++ Hex.address address ++ ", skipping" := by
  show "WARN" ++ " " ++
    ("Unknown instruction " ++ Hex.padded 4 word.toNat ++ " at " ++ Hex.address address ++ ", skipping") = _
  simp [← String.append_assoc]

theorem line_started (clock : UInt32) :
    (started clock).line = "INFO Starting VM at " ++ toString clock.toNat ++ " Hz" := by
  show "INFO" ++ " " ++ ("Starting VM at " ++ toString clock.toNat ++ " Hz") = _
  simp [← String.append_assoc]

theorem line_finished (milliseconds cycles : Nat) :
    (finished milliseconds cycles).line =
      "INFO Program ran " ++ toString milliseconds ++ " milliseconds, executed " ++ toString cycles ++ " cycles" := by
  show "INFO" ++ " " ++ ("Program ran " ++ toString milliseconds ++ " milliseconds, executed " ++ toString cycles ++
    " cycles") = _
  simp [← String.append_assoc]

theorem line_aborted : aborted.line = "ERROR Abort process because of 5 empty instructions in a row" := by
  decide +kernel

theorem line_registers (r : Registers) : (registers r).line = "DEBUG " ++ r.text := by
  show "DEBUG" ++ " " ++ r.text = _
  simp

end Event

/-- The line for a word that was executed behind others. -/
def tell (past : List UInt16) (f : Fetched) : Option String :=
  if f.word = 0 then
    some ("DEBUG Empty instruction at " ++ Hex.address f.address ++ " (" ++
      toString (emptyRowAtEnd (past ++ [f.word])) ++ " in a row)")
  else if Instruction.decode f.word = .unknown f.word then
    some ("WARN Unknown instruction " ++ Hex.padded 4 f.word.toNat ++ " at " ++ Hex.address f.address ++ ", skipping")
  else none

/-- The lines for words in their order, behind others. -/
def tale (past : List UInt16) : List Fetched → List String
  | [] => []
  | f :: rest => (tell past f).toList ++ tale (past ++ [f.word]) rest

theorem tale_append (past : List UInt16) (fs gs : List Fetched) :
    tale past (fs ++ gs) = tale past fs ++ tale (past ++ fs.map (·.word)) gs := by
  induction fs generalizing past with
  | nil => simp [tale]
  | cons f rest ih => simp [tale, ih]

namespace Machine

/-- What an action reports. Loading a program is not reported by the machine. -/
def noted (m : Machine) : Action → List Event
  | .cycle => m.cycle.note.toList
  | _ => []

def notes (m : Machine) : List Action → List Event
  | [] => []
  | a :: rest => m.noted a ++ (m.act a).notes rest

/-- What was fetched and executed, in this order. A cycle that waits for a key has not executed its word. -/
def executed (m : Machine) (h : List Action) : List Fetched := (m.trace h).filter (·.outcome ≠ .waiting)

theorem notes_append (m : Machine) (h g : List Action) : m.notes (h ++ g) = m.notes h ++ (m.through h).notes g := by
  induction h generalizing m with
  | nil => rfl
  | cons a rest ih => simp only [List.cons_append, notes, through, ih, List.append_assoc]

@[simp] theorem notes_singleton (m : Machine) (a : Action) : m.notes [a] = m.noted a := by
  simp [notes]

theorem noted_outside {a : Action} (m : Machine) (outside : a ≠ .cycle) : m.noted a = [] := by
  cases a with
  | cycle => contradiction
  | _ => rfl

theorem notes_outside (m : Machine) {h : List Action} (outside : ∀ a ∈ h, a ≠ .cycle) : m.notes h = [] := by
  induction h generalizing m with
  | nil => rfl
  | cons a rest ih =>
    rw [notes, noted_outside m (outside a List.mem_cons_self), List.nil_append]
    exact ih _ fun b member => outside b (List.mem_cons_of_mem a member)

theorem executed_cons (m : Machine) (a : Action) (rest : List Action) :
    m.executed (a :: rest) = m.executed [a] ++ (m.act a).executed rest := by
  simp [executed, trace]

theorem executed_of_waits {m : Machine} (waits : m.wouldWait = true) : m.executed [.cycle] = [] := by
  have waiting := (outcome_eq_waiting_iff m).mpr waits
  simp [executed, fetches, fetched, waiting]

theorem executed_of_goes {m : Machine} (goes : m.wouldWait = false) : m.executed [.cycle] = [m.fetched] := by
  have notWaiting : m.cycle.outcome ≠ .waiting := by
    rw [ne_eq, outcome_eq_waiting_iff, goes]
    exact Bool.false_ne_true
  simp [executed, fetches, fetched, notWaiting]

theorem executed_outside {a : Action} (m : Machine) (outside : a ≠ .cycle) : m.executed [a] = [] := by
  rw [executed, trace_singleton, fetches_outside m outside, List.filter_nil]

/-- Their words are the words that the action executes. -/
theorem word_executed (m : Machine) (a : Action) : (m.executed [a]).map (·.word) = m.executes a := by
  by_cases isCycle : a = .cycle
  · subst isCycle
    rw [executes]
    cases waits : m.wouldWait with
    | true => rw [executed_of_waits waits, List.map_nil, if_pos rfl]
    | false => simp [executed_of_goes waits, fetched]
  · rw [executed_outside m isCycle, executes_outside m isCycle, List.map_nil]

/-- The count behind an empty word is the length of its row. -/
theorem Counts.row {m : Machine} {past : List UInt16} (counts : m.Counts past) (room : m.emptyRow ≠ 255) :
    (m.emptyRow + 1).toNat = emptyRowAtEnd (past ++ [0]) := by
  have fewer := toNat_emptyRow_lt room
  unfold Counts at counts
  rw [emptyRowAtEnd_concat, if_pos rfl, UInt8.toNat_add]
  simp only [UInt8.reduceToNat]
  omega

theorem noteOf_next (m : Machine) :
    m.noteOf m.next =
      if m.next = .unknown (m.wordAt m.pc) then some (.unknownWord (m.wordAt m.pc) m.pc) else none := by
  by_cases isUnknown : m.next = .unknown (m.wordAt m.pc)
  · rw [if_pos isUnknown, isUnknown]
    rfl
  · have fits : m.next.Fits (m.wordAt m.pc) := (Instruction.fits_decode (m.wordAt m.pc)).resolve_right isUnknown
    rw [if_neg isUnknown]
    unfold noteOf
    split
    · rename_i word found
      rw [found] at fits
      exact fits.elim
    · rfl

/-- A cycle that can be counted reports what is to be said of its word. -/
theorem lines_noted {m : Machine} {past : List UInt16} (counts : m.Counts past) (a : Action)
    (countable : ∀ f ∈ m.executed [a], f.outcome ≠ .overflow) :
    (m.noted a).map Event.line = tale past (m.executed [a]) := by
  by_cases isCycle : a = .cycle
  · subst isCycle
    rcases m.cycle_cases with ⟨isEmpty, full, eq⟩ | ⟨isEmpty, room, eq⟩ | ⟨-, waits, eq⟩ | ⟨other, goes, eq⟩
    · rw [executed_of_goes (wouldWait_of_empty isEmpty)] at countable
      exact absurd (by simp [fetched, eq]) (countable m.fetched (by simp))
    · have zero : m.wordAt m.pc = 0 := (next_eq_empty_iff m).mp isEmpty
      rw [noted, eq, executed_of_goes (wouldWait_of_empty isEmpty)]
      simp [tale, tell, fetched, zero, Event.line_emptyWord, counts.row room]
    · rw [noted, eq, executed_of_waits waits]
      rfl
    · have nonzero : m.wordAt m.pc ≠ 0 := fun zero => other ((next_eq_empty_iff m).mpr zero)
      rw [noted, eq, executed_of_goes goes, noteOf_next]
      simp only [tale, tell, fetched, nonzero, ↓reduceIte, List.append_nil]
      change (if m.next = _ then _ else none : Option Event).toList.map Event.line =
        (if m.next = _ then _ else none : Option String).toList
      by_cases isUnknown : m.next = .unknown (m.wordAt m.pc)
      · simp [isUnknown, Event.line_unknownWord]
      · simp [isUnknown]
  · rw [executed_outside m isCycle, noted_outside m isCycle]
    rfl

theorem lines_eq_tale {m : Machine} {past : List UInt16} (counts : m.Counts past) (h : List Action)
    (countable : ∀ f ∈ m.executed h, f.outcome ≠ .overflow) :
    (m.notes h).map Event.line = tale past (m.executed h) := by
  induction h generalizing m past with
  | nil => rfl
  | cons a rest ih =>
    rw [executed_cons] at countable ⊢
    have first := lines_noted counts a fun f member => countable f (List.mem_append_left _ member)
    have later := ih (counts.act a) fun f member => countable f (List.mem_append_right _ member)
    rw [notes, List.map_append, first, later, tale_append, word_executed]

/-- Without 256 empty words in a row, all that are executed can be counted. -/
theorem countable_of_short {m : Machine} {past : List UInt16} (counts : m.Counts past) {h : List Action}
    (short : ¬List.replicate 256 0 <:+: past ++ m.words h) : ∀ f ∈ m.executed h, f.outcome ≠ .overflow := by
  induction h generalizing m past with
  | nil => exact fun f member => nomatch member
  | cons a rest ih =>
    rw [words, ← List.append_assoc] at short
    rw [executed_cons]
    intro f member
    rcases List.mem_append.mp member with now | later
    · intro overflow
      by_cases isCycle : a = .cycle
      · subst isCycle
        rw [executed, List.mem_filter, trace_singleton, fetches, List.mem_singleton] at now
        rw [now.1] at overflow
        obtain ⟨isEmpty, full⟩ := (outcome_eq_overflow_iff m).mp overflow
        have early : ¬List.replicate 256 0 <:+: past ++ m.executes .cycle :=
          fun row => short (row.trans (List.prefix_append _ _).isInfix)
        exact counts.room isEmpty early full
      · rw [executed_outside m isCycle] at now
        cases now
    · exact ih (counts.act a) short f later

end Machine
end Chip8
