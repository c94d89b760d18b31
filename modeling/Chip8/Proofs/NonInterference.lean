import Chip8.Proofs.RunHistory

/-!
# Timers and keys do not interfere

A program that never looks at the delay timer or the keypad cannot tell how ticks and keys fall between its
cycles. What such a program can see of a machine is left when the timers and the keypad are hushed
(`Machine.hushed`), and every cycle keeps to that (`Machine.hushed_cycle`). So two histories with equally many
cycles fetch the same words and leave machines behind that agree, and so do two runs at different clocks.
-/

namespace Chip8

/-- Whether an instruction looks at the delay timer or at the keypad. -/
def Instruction.listens : Instruction → Bool
  | .readDelay _ | .skipIfHeld _ | .skipUnlessHeld _ | .awaitKey _ => true
  | _ => false

def Touch.isKey : Touch → Bool
  | .press _ | .release _ | .toggle _ | .releaseAll => true
  | _ => false

/-- Whether an action is a tick or a touch of the keypad. -/
def Action.unseen : Action → Bool
  | .tick => true
  | .touch t => t.isKey
  | _ => false

namespace Machine

/-- Two machines that may differ in their timers and their keypads, and in nothing else. -/
structure Agrees (m n : Machine) : Prop where
  pc : m.pc = n.pc
  index : m.index = n.index
  v : m.v = n.v
  stack : m.stack = n.stack
  memory : m.memory = n.memory
  display : m.display = n.display
  emptyRow : m.emptyRow = n.emptyRow
  stopping : m.stopping = n.stopping
  random : m.random = n.random

/-- The machine with its timers run down and no key held. -/
def hushed (m : Machine) : Machine := { m with keypad := .idle, delay := 0, sound := 0 }

theorem agrees_iff (m n : Machine) : m.Agrees n ↔ m.hushed = n.hushed := by
  constructor
  · rintro ⟨pc, index, v, stack, memory, display, emptyRow, stopping, random⟩
    simp only [hushed, pc, index, v, stack, memory, display, emptyRow, stopping, random]
  · intro same
    injection same with memory stack display _ pc index v _ _ emptyRow stopping random
    exact ⟨pc, index, v, stack, memory, display, emptyRow, stopping, random⟩

theorem hushed_unseen (m : Machine) {a : Action} (unseen : a.unseen = true) : (m.act a).hushed = m.hushed := by
  cases a with
  | tick => rfl
  | touch t =>
    cases t with
    | draw | clear | stop => cases unseen
    | _ => rfl
  | _ => cases unseen

theorem hushed_perform (m : Machine) {i : Instruction} (deaf : i.listens = false) :
    (m.hushed.perform i).hushed = (m.perform i).hushed := by
  rw [perform_eq, perform_eq]
  cases i with
  | readDelay x | skipIfHeld x | skipUnlessHeld x | awaitKey x => cases deaf
  | _ => rfl

theorem wouldWait_of_deaf {m : Machine} (deaf : m.next.listens = false) : m.wouldWait = false := by
  apply goes_unless_awaitKey
  intro x awaits
  rw [awaits] at deaf
  cases deaf

theorem cycle_hushed {m : Machine} (deaf : m.next.listens = false) :
    m.hushed.cycle.outcome = m.cycle.outcome ∧ m.hushed.cycle.machine.hushed = m.cycle.machine.hushed := by
  have next : m.hushed.next = m.next := rfl
  by_cases isEmpty : m.next = .empty
  · rw [cycle_of_empty isEmpty, cycle_of_empty (next.trans isEmpty)]
    unfold cycleEmpty
    by_cases full : m.emptyRow = 255
    · have fullToo : m.hushed.emptyRow = 255 := full
      rw [if_pos full, if_pos fullToo]
      exact ⟨rfl, rfl⟩
    · have roomToo : m.hushed.emptyRow ≠ 255 := full
      rw [if_neg full, if_neg roomToo]
      exact ⟨rfl, rfl⟩
  · rw [cycle_of_goes isEmpty (wouldWait_of_deaf deaf),
      cycle_of_goes (next ▸ isEmpty) (wouldWait_of_deaf (next ▸ deaf))]
    exact ⟨rfl, hushed_perform { m.advance with emptyRow := 0 } deaf⟩

theorem next_of_hushed {m n : Machine} (same : m.hushed = n.hushed) : m.next = n.next := by
  show m.hushed.next = n.hushed.next
  rw [same]

theorem hushed_cycle {m n : Machine} (same : m.hushed = n.hushed) (deaf : m.next.listens = false) :
    m.fetched = n.fetched ∧ (m.act .cycle).hushed = (n.act .cycle).hushed := by
  have deafToo : n.next.listens = false := next_of_hushed same ▸ deaf
  obtain ⟨out, left⟩ := cycle_hushed deaf
  obtain ⟨outToo, leftToo⟩ := cycle_hushed deafToo
  have place : m.hushed.pc = n.hushed.pc ∧ m.hushed.wordAt m.hushed.pc = n.hushed.wordAt n.hushed.pc := by
    rw [same]
    exact ⟨rfl, rfl⟩
  obtain ⟨pc, word⟩ := place
  change m.pc = n.pc at pc
  change m.wordAt m.pc = n.wordAt n.pc at word
  refine ⟨?_, ?_⟩
  · simp only [fetched, Fetched.mk.injEq]
    exact ⟨pc, word, by rw [← out, ← outToo, same]⟩
  · rw [act, act, ← left, ← leftToo, same]

/-! ## Two histories -/

theorem hushed_through_unseen (m : Machine) {h : List Action} (unseen : ∀ a ∈ h, a.unseen = true) :
    (m.through h).hushed = m.hushed := by
  induction h generalizing m with
  | nil => rfl
  | cons a rest ih =>
    rw [through, ih _ fun b member => unseen b (List.mem_cons_of_mem a member)]
    exact hushed_unseen m (unseen a List.mem_cons_self)

theorem exists_first_cycle {h : List Action} (some : 0 < h.countP Action.isCycle) :
    ∃ early late, h = early ++ .cycle :: late ∧ ∀ a ∈ early, a ≠ .cycle := by
  induction h with
  | nil => cases some
  | cons a rest ih =>
    by_cases isCycle : a = .cycle
    · exact ⟨[], rest, by rw [isCycle, List.nil_append], fun b member => nomatch member⟩
    · have later : 0 < rest.countP Action.isCycle := by
        cases a with
        | cycle => contradiction
        | _ => exact some
      obtain ⟨early, late, split, outside⟩ := ih later
      refine ⟨a :: early, late, by rw [split, List.cons_append], ?_⟩
      intro b member
      rcases List.mem_cons.mp member with rfl | member
      · exact isCycle
      · exact outside b member

theorem exists_prefix_of_le {h : List Action} {n : Nat} (some : n ≤ h.countP Action.isCycle) :
    ∃ early late, h = early ++ late ∧ early.countP Action.isCycle = n := by
  induction h generalizing n with
  | nil => exact ⟨[], [], rfl, (Nat.le_zero.mp some).symm⟩
  | cons a rest ih =>
    cases n with
    | zero => exact ⟨[], a :: rest, rfl, rfl⟩
    | succ n =>
      by_cases isCycle : a.isCycle = true
      · rw [List.countP_cons_of_pos isCycle] at some
        obtain ⟨early, late, split, count⟩ := ih (Nat.le_of_succ_le_succ some)
        exact ⟨a :: early, late, by rw [split, List.cons_append], by rw [List.countP_cons_of_pos isCycle, count]⟩
      · rw [List.countP_cons_of_neg isCycle] at some
        obtain ⟨early, late, split, count⟩ := ih some
        exact ⟨a :: early, late, by rw [split, List.cons_append], by rw [List.countP_cons_of_neg isCycle, count]⟩

/-- A history up to one of its cycles and on to the next one. -/
theorem exists_cycle_of_lt {h : List Action} {n : Nat} (some : n < h.countP Action.isCycle) :
    ∃ early before rest, h = early ++ (before ++ .cycle :: rest) ∧ early.countP Action.isCycle = n ∧
      ∀ a ∈ before, a ≠ .cycle := by
  obtain ⟨early, late, rfl, count⟩ := exists_prefix_of_le (Nat.le_of_lt some)
  have more : 0 < late.countP Action.isCycle := by
    rw [List.countP_append] at some
    omega
  obtain ⟨before, rest, rfl, outside⟩ := exists_first_cycle more
  exact ⟨early, before, rest, rfl, count, outside⟩

theorem trace_first_cycle (m : Machine) {before rest : List Action} (outside : ∀ a ∈ before, a ≠ .cycle) :
    m.trace (before ++ .cycle :: rest) = (m.through before).fetched :: ((m.through before).act .cycle).trace rest := by
  rw [trace_append, trace_outside m outside, List.nil_append]
  rfl

/-- A history of cycles and of what a program that does not listen cannot see. -/
def Hidden (h : List Action) : Prop := ∀ a ∈ h, a = .cycle ∨ a.unseen = true

/-- Two histories with equally many cycles fetch the same and leave machines behind that agree, as long as no
instruction of the first one listens. -/
theorem trace_eq_of_hushed {m n : Machine} (same : m.hushed = n.hushed) {h g : List Action} (hidden : Hidden h)
    (hiddenToo : Hidden g) (equal : h.countP Action.isCycle = g.countP Action.isCycle)
    (deaf : ∀ f ∈ m.trace h, (Instruction.decode f.word).listens = false) :
    m.trace h = n.trace g ∧ (m.through h).hushed = (n.through g).hushed := by
  induction h generalizing m n g with
  | nil =>
    have outside : ∀ a ∈ g, a ≠ .cycle := Action.countP_isCycle_eq_zero.mp equal.symm
    have unseen : ∀ a ∈ g, a.unseen = true := fun a member => (hiddenToo a member).resolve_left (outside a member)
    rw [trace_outside n outside, hushed_through_unseen n unseen]
    exact ⟨rfl, same⟩
  | cons a rest ih =>
    have restHidden : Hidden rest := fun b member => hidden b (List.mem_cons_of_mem a member)
    rcases hidden a List.mem_cons_self with rfl | unseen
    · obtain ⟨early, late, rfl, outside⟩ := exists_first_cycle (h := g) (by rw [← equal]; simp [Action.isCycle])
      have earlyUnseen : ∀ a ∈ early, a.unseen = true := fun a member =>
        (hiddenToo a (List.mem_append_left _ member)).resolve_left (outside a member)
      have lateHidden : Hidden late := fun a member =>
        hiddenToo a (List.mem_append_right _ (List.mem_cons_of_mem _ member))
      have sameThere : m.hushed = (n.through early).hushed := by rw [hushed_through_unseen n earlyUnseen, same]
      have first : m.next.listens = false := deaf m.fetched List.mem_cons_self
      obtain ⟨fetched, after⟩ := hushed_cycle sameThere first
      have none : early.countP Action.isCycle = 0 := Action.countP_isCycle_eq_zero.mpr outside
      have fewer : rest.countP Action.isCycle = late.countP Action.isCycle := by
        rw [List.countP_append, none, List.countP_cons_of_pos rfl, List.countP_cons_of_pos rfl] at equal
        omega
      obtain ⟨trace, left⟩ := ih after restHidden lateHidden fewer fun f member =>
        deaf f (List.mem_append_right _ member)
      rw [trace_first_cycle n outside, through_append]
      exact ⟨List.cons_eq_cons.mpr ⟨fetched, trace⟩, left⟩
    · have isOutside : a ≠ .cycle := by
        rintro rfl
        cases unseen
      have none : m.trace (a :: rest) = (m.act a).trace rest := by
        rw [Machine.trace, fetches_outside m isOutside, List.nil_append]
      have notCycle : ¬ a.isCycle = true := mt a.isCycle_iff.mp isOutside
      rw [List.countP_cons_of_neg notCycle] at equal
      rw [none] at deaf ⊢
      exact ih ((hushed_unseen m unseen).trans same) restHidden hiddenToo equal deaf

end Machine
end Chip8
