import Chip8.Proofs.Footprint
import Chip8.Proofs.History

/-!
# The history of timers

A timer shows the byte that it was last set to, less one for every tick since (`Machine.LastSet`). What one action
does to a timer (`toNat_timer_act`) gives what is left of it behind a stretch in which nothing sets it
(`Unset.toNat_timer`), and every history ends in such a stretch (`exists_lastSet`).

Signals share the sound timer with the machine that handed them out. It stands in a cell, and all of them look
into that cell (`Wired`).
-/

namespace Chip8

inductive Timer
  | delay
  | sound
deriving DecidableEq

namespace Timer

/-- The second byte of the words that set a timer. -/
def setter : Timer → UInt8
  | .delay => 0x15
  | .sound => 0x18

def part : Timer → Part
  | .delay => .delay
  | .sound => .sound

end Timer

namespace Machine
open Word Instruction

def timer (m : Machine) : Timer → UInt8
  | .delay => m.delay
  | .sound => m.sound

/-- What an action sets a timer to, if it is a cycle on a word that sets it. -/
def sets? (m : Machine) (t : Timer) : Action → Option UInt8
  | .cycle =>
    if head (m.wordAt m.pc) = 0xF ∧ kk (m.wordAt m.pc) = t.setter then some (m.v.get (x (m.wordAt m.pc))) else none
  | _ => none

/-- Whether nothing in a history sets a timer. -/
def Unset (m : Machine) (t : Timer) : List Action → Prop
  | [] => True
  | a :: rest => m.sets? t a = none ∧ (m.act a).Unset t rest

/-- The byte that a timer was last set to in a history, and the number of ticks since. A timer that was never set is
taken to have been set to zero in the beginning. -/
inductive LastSet (m : Machine) (t : Timer) : List Action → UInt8 → Nat → Prop
  | never {h : List Action} (unset : m.Unset t h) : LastSet m t h 0 (h.countP Action.isTick)
  | set {before since : List Action} {d : UInt8} (sets : (m.through before).sets? t .cycle = some d)
      (unset : (m.through (before ++ [.cycle])).Unset t since) :
      LastSet m t (before ++ .cycle :: since) d (since.countP Action.isTick)

/-! ## What an action does to a timer -/

theorem isCycle_of_sets {m : Machine} {t : Timer} {a : Action} {d : UInt8} (sets : m.sets? t a = some d) :
    a = .cycle := by
  cases a with
  | cycle => rfl
  | _ => cases sets

/-- Only the words that set a timer may change it. -/
theorem mayChange_timer_iff (m : Machine) (t : Timer) (w : UInt16) :
    m.MayChange w t.part ↔ head w = 0xF ∧ kk w = t.setter := by
  cases t <;> rfl

theorem timer_of_same {m n : Machine} {t : Timer} (same : m.Same n t.part) : m.timer t = n.timer t := by
  cases t <;> exact same

theorem sets_cycle_iff (m : Machine) (t : Timer) (d : UInt8) :
    m.sets? t .cycle = some d ↔
      (head (m.wordAt m.pc) = 0xF ∧ kk (m.wordAt m.pc) = t.setter) ∧ m.v.get (x (m.wordAt m.pc)) = d := by
  rw [sets?, Option.ite_none_right_eq_some, Option.some_inj]

theorem timer_cycle_of_unset {m : Machine} {t : Timer} (unset : m.sets? t .cycle = none) :
    (m.act .cycle).timer t = m.timer t := by
  refine timer_of_same (same_cycle fun setting => ?_)
  have sets := (m.sets_cycle_iff t _).mpr ⟨(m.mayChange_timer_iff t _).mp setting, rfl⟩
  rw [unset] at sets
  cases sets

theorem timer_cycle_of_sets {m : Machine} {t : Timer} {d : UInt8} (sets : m.sets? t .cycle = some d) :
    (m.act .cycle).timer t = d := by
  obtain ⟨⟨first, last⟩, rfl⟩ := (m.sets_cycle_iff t d).mp sets
  cases t with
  | delay =>
    have fits : Fits (m.wordAt m.pc) (.setDelay (x (m.wordAt m.pc))) := ⟨first, last, rfl⟩
    rw [act, (cycle_of_fits fits (by simp) (by simp)).2, perform_eq]
    rfl
  | sound =>
    have fits : Fits (m.wordAt m.pc) (.setSound (x (m.wordAt m.pc))) := ⟨first, last, rfl⟩
    rw [act, (cycle_of_fits fits (by simp) (by simp)).2, perform_eq]
    rfl

theorem toNat_timer_tick (m : Machine) (t : Timer) : (m.tick.timer t).toNat = (m.timer t).toNat - 1 := by
  have down (b : UInt8) : (if b = 0 then 0 else b - 1).toNat = b.toNat - 1 := by
    by_cases zero : b = 0
    · rw [if_pos zero, zero]
      rfl
    · have positive : 1 ≤ b := by
        rw [UInt8.le_iff_toNat_le]
        exact Nat.one_le_iff_ne_zero.mpr fun none => zero (UInt8.toNat_inj.mp none)
      rw [if_neg zero, UInt8.toNat_sub_of_le b 1 positive]
      rfl
  cases t <;> exact down _

/-- An action that does not set a timer leaves it alone, unless it is a tick. -/
theorem toNat_timer_act {m : Machine} {t : Timer} {a : Action} (unset : m.sets? t a = none) :
    ((m.act a).timer t).toNat = (m.timer t).toNat - [a].countP Action.isTick := by
  cases a with
  | cycle => exact congrArg UInt8.toNat (timer_cycle_of_unset unset)
  | tick => exact toNat_timer_tick m t
  | load rom => cases t <;> rfl
  | touch touched =>
    rw [act, touch_eq]
    cases t <;> rfl

/-! ## What a history does to a timer -/

theorem Unset.toNat_timer {m : Machine} {t : Timer} {h : List Action} (unset : m.Unset t h) :
    ((m.through h).timer t).toNat = (m.timer t).toNat - h.countP Action.isTick := by
  induction h generalizing m with
  | nil => rfl
  | cons a rest ih =>
    rw [through, ih unset.2, toNat_timer_act unset.1, Nat.sub_sub, ← List.countP_append, List.singleton_append]

theorem LastSet.toNat_timer {m : Machine} {t : Timer} {h : List Action} {d : UInt8} {k : Nat}
    (last : m.LastSet t h d k) (down : m.timer t = 0) : ((m.through h).timer t).toNat = d.toNat - k := by
  cases last with
  | never unset =>
    rw [unset.toNat_timer, down]
  | @set before since d sets unset =>
    have last : (m.through (before ++ [.cycle])).timer t = d := by
      rw [through_append]
      exact timer_cycle_of_sets sets
    rw [List.append_cons, through_append, unset.toNat_timer, last]

theorem exists_lastSet (m : Machine) (t : Timer) (h : List Action) : ∃ d k, m.LastSet t h d k := by
  -- Either nothing sets the timer, or the history splits at the last cycle that does.
  have splits : m.Unset t h ∨ ∃ before since d, h = before ++ .cycle :: since ∧
      (m.through before).sets? t .cycle = some d ∧ (m.through (before ++ [.cycle])).Unset t since := by
    induction h generalizing m with
    | nil => exact .inl trivial
    | cons a rest ih =>
      rcases ih (m.act a) with unset | ⟨before, since, d, rfl, sets, unset⟩
      · cases now : m.sets? t a with
        | none => exact .inl ⟨now, unset⟩
        | some d =>
          obtain rfl := isCycle_of_sets now
          exact .inr ⟨[], rest, d, rfl, now, unset⟩
      · exact .inr ⟨a :: before, since, d, rfl, sets, unset⟩
  rcases splits with unset | ⟨before, since, d, rfl, sets, unset⟩
  · exact ⟨0, _, .never unset⟩
  · exact ⟨d, _, .set sets unset⟩

theorem cycle_of_readDelay {m : Machine} (first : head (m.wordAt m.pc) = 0xF) (last : kk (m.wordAt m.pc) = 0x07) :
    m.cycle.outcome = .done ∧ m.cycle.machine.v.get (x (m.wordAt m.pc)) = m.delay := by
  have fits : Fits (m.wordAt m.pc) (.readDelay (x (m.wordAt m.pc))) := ⟨first, last, rfl⟩
  obtain ⟨done, machine⟩ := cycle_of_fits fits (by simp) (by simp)
  refine ⟨done, ?_⟩
  rw [machine, perform_eq]
  simp only [vAfter, Table.get_set, if_true]
  rfl

end Machine

/-! ## Signals -/

/-- A view of the cell that holds a sound timer. -/
structure Signal where
  cell : Nat

/-- Whether the sound timer in the cell runs. -/
def Signal.isActive (s : Signal) (cells : Nat → UInt8) : Bool := 0 < cells s.cell

/-- A machine whose sound timer stands in a cell, and the signals that look into cells. -/
structure Wired where
  /-- The machine but for its sound timer. -/
  body : Machine
  cell : Nat
  cells : Nat → UInt8
  signals : List Signal

namespace Wired

/-- What can happen to a machine and its signals. -/
inductive Step
  | act (a : Action)
  /-- The machine hands out a signal. -/
  | signal
  /-- A signal is copied, if there is one with that number. -/
  | copy (i : Nat)

def Step.action? : Step → Option Action
  | .act a => some a
  | _ => none

/-- The machine with the sound timer in its cell. -/
def machine (w : Wired) : Machine := { w.body with sound := w.cells w.cell }

/-- Puts a machine back, its sound timer into its cell. -/
def put (w : Wired) (m : Machine) : Wired :=
  { w with body := m, cells := fun c => if c = w.cell then m.sound else w.cells c }

/-- A machine that is wired to a cell and has handed out no signals. -/
def wire (m : Machine) (cell : Nat) (cells : Nat → UInt8) : Wired := put ⟨m, cell, cells, []⟩ m

def step (w : Wired) : Step → Wired
  | .act a => w.put (w.machine.act a)
  | .signal => { w with signals := w.signals ++ [⟨w.cell⟩] }
  | .copy i => { w with signals := w.signals ++ w.signals[i]?.toList }

def steps (w : Wired) (ts : List Step) : Wired := ts.foldl step w

@[simp] theorem machine_put (w : Wired) (m : Machine) : (w.put m).machine = m := by
  simp [machine, put]

theorem machine_step (w : Wired) (t : Step) : (w.step t).machine = w.machine.through t.action?.toList := by
  cases t with
  | act a => exact machine_put w _
  | signal | copy i => rfl

/-- The machine goes through the actions among the steps, whatever happens to signals between them. -/
theorem machine_steps (w : Wired) (ts : List Step) :
    (w.steps ts).machine = w.machine.through (ts.filterMap Step.action?) := by
  induction ts generalizing w with
  | nil => rfl
  | cons t rest ih =>
    rw [steps, List.foldl_cons]
    refine (ih (w.step t)).trans ?_
    rw [machine_step, ← Machine.through_append]
    cases t <;> rfl

/-- All signals look into the cell of the machine. -/
def Shares (w : Wired) : Prop := ∀ s ∈ w.signals, s.cell = w.cell

theorem Shares.step {w : Wired} (shares : w.Shares) (t : Step) : (w.step t).Shares := by
  cases t with
  | act a => exact shares
  | signal =>
    intro s member
    rcases List.mem_append.mp member with before | new
    · exact shares s before
    · rw [List.mem_singleton.mp new]
      rfl
  | copy i =>
    intro s member
    rcases List.mem_append.mp member with before | new
    · exact shares s before
    · exact shares s (List.mem_of_getElem? (Option.mem_toList.mp new))

theorem Shares.steps {w : Wired} (shares : w.Shares) (ts : List Step) : (w.steps ts).Shares := by
  induction ts generalizing w with
  | nil => exact shares
  | cons t rest ih => exact ih (shares.step t)

/-- Every signal that was ever handed out or copied tells whether the machine sounds. -/
theorem isActive_eq_isSounding (m : Machine) (cell : Nat) (cells : Nat → UInt8) (ts : List Step) :
    ∀ s ∈ ((wire m cell cells).steps ts).signals,
      s.isActive ((wire m cell cells).steps ts).cells = (m.through (ts.filterMap Step.action?)).isSounding := by
  intro s member
  have shares : (wire m cell cells).Shares := fun s member => nomatch member
  have went := machine_steps (wire m cell cells) ts
  rw [wire, machine_put, ← wire] at went
  rw [Signal.isActive, shares.steps ts s member, ← went]
  rfl

end Wired

namespace Machine
open Word

theorem isSounding_iff (m : Machine) : m.isSounding = true ↔ 0 < (m.timer .sound).toNat := by
  rw [isSounding, decide_eq_true_iff, UInt8.lt_iff_toNat_lt]
  rfl

/-- Behind any history of a fresh machine, each of its timers shows the byte that it was last set to, less the ticks
since, and no less than zero. A word that reads the delay timer finds just that. The machine sounds, and so do
all signals that it handed out and their copies, while this is positive for the sound timer. -/
theorem timers_show_what_ticks_have_left (config : Config) (random : List UInt8) (h : List Action) :
    let start := fresh config random
    let m := start.through h
    (∀ t, ∃ d k, start.LastSet t h d k) ∧
    (∀ t d k, start.LastSet t h d k → (m.timer t).toNat = d.toNat - k) ∧
    (∀ d k, start.LastSet .delay h d k → head (m.wordAt m.pc) = 0xF → kk (m.wordAt m.pc) = 0x07 →
      m.cycle.outcome = .done ∧ (m.cycle.machine.v.get (x (m.wordAt m.pc))).toNat = d.toNat - k) ∧
    (∀ s k, start.LastSet .sound h s k → (m.isSounding = true ↔ 0 < s.toNat - k)) ∧
    ∀ s k, start.LastSet .sound h s k → ∀ (cell : Nat) (cells : Nat → UInt8) (ts : List Wired.Step),
      ts.filterMap Wired.Step.action? = h → ∀ signal ∈ ((Wired.wire start cell cells).steps ts).signals,
        (signal.isActive ((Wired.wire start cell cells).steps ts).cells = true ↔ 0 < s.toNat - k) := by
  intro start m
  have shown : ∀ t d k, start.LastSet t h d k → (m.timer t).toNat = d.toNat - k := by
    intro t d k last
    exact last.toNat_timer (by cases t <;> rfl)
  have sounds : ∀ s k, start.LastSet .sound h s k → (m.isSounding = true ↔ 0 < s.toNat - k) := by
    intro s k last
    rw [isSounding_iff, shown .sound s k last]
  refine ⟨fun t => start.exists_lastSet t h, shown, ?_, sounds, ?_⟩
  · intro d k last first reads
    obtain ⟨done, read⟩ := cycle_of_readDelay first reads
    exact ⟨done, by rw [read]; exact shown .delay d k last⟩
  · intro s k last cell cells ts acts signal member
    rw [Wired.isActive_eq_isSounding start cell cells ts signal member, acts]
    exact sounds s k last

/-- Both timers are set to five, the sound timer a tick later. -/
def twoTimers : List Action :=
  [.load [0x63, 0x05, 0xF3, 0x15, 0xF3, 0x18, 0xF4, 0x07], .cycle, .cycle, .tick, .cycle, .tick, .touch (.press 3),
    .tick]

theorem reads_behind_twoTimers :
    (((fresh .default []).through twoTimers).timer .delay).toNat = 2 ∧
      (((fresh .default []).through twoTimers).timer .sound).toNat = 3 ∧
      (((fresh .default []).through twoTimers).cycle.machine.v.get 0x4).toNat = 2 := by
  have delay : (fresh .default []).LastSet .delay twoTimers 5 3 :=
    @LastSet.set _ _ (twoTimers.take 2) (twoTimers.drop 3) 5 (by decide +kernel)
      ⟨rfl, by decide +kernel, rfl, rfl, rfl, trivial⟩
  have sound : (fresh .default []).LastSet .sound twoTimers 5 2 :=
    @LastSet.set _ _ (twoTimers.take 4) (twoTimers.drop 5) 5 (by decide +kernel) ⟨rfl, rfl, rfl, trivial⟩
  have word : ((fresh .default []).through twoTimers).wordAt ((fresh .default []).through twoTimers).pc = 0xF407 := by
    decide +kernel
  obtain ⟨-, shown, reads, -⟩ := timers_show_what_ticks_have_left .default [] twoTimers
  rw [word] at reads
  exact ⟨shown .delay 5 3 delay, shown .sound 5 2 sound, (reads 5 3 delay rfl rfl).2⟩

end Machine
end Chip8
