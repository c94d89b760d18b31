import Chip8.Proofs.Effects

/-!
# Histories

A history is what happens to a machine from within and from outside, one action after another in any order.
It leaves a machine behind (`through`), has executed some words (`words`), and its cycles have come out in
some way (`trace`).
-/

namespace Chip8

/-- What other threads can do to a machine. Questions to its keypad and its display change nothing and are left
out. -/
inductive Touch
  | press (k : UInt8)
  | release (k : UInt8)
  | toggle (k : UInt8)
  | releaseAll
  | draw (sprite : List UInt8) (x y : UInt8)
  | clear
  | stop

/-- What can happen to a machine. -/
inductive Action
  | load (rom : Rom)
  | cycle
  | tick
  | touch (t : Touch)

namespace Action

def isCycle : Action → Bool
  | .cycle => true
  | _ => false

def isTick : Action → Bool
  | .tick => true
  | _ => false

/-- What another thread did, if it was another thread. -/
def touch? : Action → Option Touch
  | .touch t => some t
  | _ => none

theorem isCycle_iff (a : Action) : a.isCycle = true ↔ a = .cycle := by
  cases a <;> simp [isCycle]

theorem countP_isCycle_eq_zero {h : List Action} : h.countP isCycle = 0 ↔ ∀ a ∈ h, a ≠ .cycle := by
  simp [List.countP_eq_zero, isCycle_iff]

end Action

/-- What is to be told of a cycle: where its word stands, the word, and how the cycle came out. -/
structure Fetched where
  address : UInt16
  word : UInt16
  outcome : Outcome
deriving DecidableEq

namespace Machine

/-- The machine after another thread has touched it. -/
def touch (m : Machine) : Touch → Machine
  | .press k => m.mapKeypad (·.press k)
  | .release k => m.mapKeypad (·.release k)
  | .toggle k => m.mapKeypad (·.toggle k)
  | .releaseAll => m.mapKeypad fun _ => .idle
  | .draw sprite x y => m.mapDisplay fun b => (b.draw sprite x y).1
  | .clear => m.mapDisplay fun _ => .blank
  | .stop => m.stop

/-- The machine after an action. -/
def act (m : Machine) : Action → Machine
  | .load rom => m.load rom
  | .cycle => m.cycle.machine
  | .tick => m.tick
  | .touch t => m.touch t

/-- The machine after a history. -/
def through (m : Machine) : List Action → Machine
  | [] => m
  | a :: rest => (m.act a).through rest

/-- The word that an action executes. A cycle that waits for a key has executed nothing yet. -/
def executes (m : Machine) : Action → List UInt16
  | .cycle => if m.wouldWait then [] else [m.wordAt m.pc]
  | _ => []

/-- The words that a history executes, in their order. -/
def words (m : Machine) : List Action → List UInt16
  | [] => []
  | a :: rest => m.executes a ++ (m.act a).words rest

/-- What a cycle fetches. -/
def fetched (m : Machine) : Fetched := ⟨m.pc, m.wordAt m.pc, m.cycle.outcome⟩

/-- What an action fetches. -/
def fetches (m : Machine) : Action → List Fetched
  | .cycle => [m.fetched]
  | _ => []

/-- What the cycles of a history fetch, in their order. -/
def trace (m : Machine) : List Action → List Fetched
  | [] => []
  | a :: rest => m.fetches a ++ (m.act a).trace rest

/-! ## Histories one after another -/

theorem through_append (m : Machine) (h g : List Action) : m.through (h ++ g) = (m.through h).through g := by
  induction h generalizing m with
  | nil => rfl
  | cons a rest ih => exact ih (m.act a)

theorem words_append (m : Machine) (h g : List Action) :
    m.words (h ++ g) = m.words h ++ (m.through h).words g := by
  induction h generalizing m with
  | nil => rfl
  | cons a rest ih => simp only [List.cons_append, words, through, ih, List.append_assoc]

theorem trace_append (m : Machine) (h g : List Action) :
    m.trace (h ++ g) = m.trace h ++ (m.through h).trace g := by
  induction h generalizing m with
  | nil => rfl
  | cons a rest ih => simp only [List.cons_append, trace, through, ih, List.append_assoc]

@[simp] theorem through_singleton (m : Machine) (a : Action) : m.through [a] = m.act a := rfl

@[simp] theorem words_singleton (m : Machine) (a : Action) : m.words [a] = m.executes a := by
  simp [words]

@[simp] theorem trace_singleton (m : Machine) (a : Action) : m.trace [a] = m.fetches a := by
  simp [trace]

/-- There is one entry for each cycle. -/
theorem length_trace (m : Machine) (h : List Action) : (m.trace h).length = h.countP Action.isCycle := by
  induction h generalizing m with
  | nil => rfl
  | cons a rest ih =>
    rw [trace, List.length_append, ih, List.countP_cons, Nat.add_comm]
    cases a <;> rfl

/-- What every action keeps, every history keeps. -/
theorem through_induction {P : Machine → Prop} (kept : ∀ m a, P m → P (m.act a)) {m : Machine} (start : P m)
    (h : List Action) : P (m.through h) := by
  induction h generalizing m with
  | nil => exact start
  | cons a rest ih => exact ih (kept m a start)

/-! ## Actions that are no cycles -/

/-- Other threads reach only the keypad, the display and the wish to stop. -/
theorem touch_eq (m : Machine) (t : Touch) :
    m.touch t = { m with
      keypad := (m.touch t).keypad, display := (m.touch t).display, stopping := (m.touch t).stopping } := by
  cases t <;> rfl

theorem stack_act {a : Action} (m : Machine) (outside : a ≠ .cycle) : (m.act a).stack = m.stack := by
  cases a with
  | cycle => contradiction
  | touch t => rw [act, touch_eq]
  | _ => rfl

theorem emptyRow_act {a : Action} (m : Machine) (outside : a ≠ .cycle) : (m.act a).emptyRow = m.emptyRow := by
  cases a with
  | cycle => contradiction
  | touch t => rw [act, touch_eq]
  | _ => rfl

/-- From outside, only a program that is loaded moves the program counter. -/
theorem pc_act {a : Action} (m : Machine) (outside : a ≠ .cycle) :
    (m.act a).pc = m.pc ∨ (m.act a).pc = programStart := by
  cases a with
  | cycle => contradiction
  | load rom => exact .inr rfl
  | tick => exact .inl rfl
  | touch t => exact .inl (by rw [act, touch_eq])

/-- Nothing takes the wish to stop back. -/
theorem stopping_touch {m : Machine} (stopping : m.stopping = true) (t : Touch) : (m.touch t).stopping = true := by
  cases t with
  | stop => rfl
  | _ => exact stopping

theorem stopping_cycle (m : Machine) : m.cycle.machine.stopping = m.stopping := by
  rcases m.cycle_cases with ⟨-, -, eq⟩ | ⟨-, -, eq⟩ | ⟨-, -, eq⟩ | ⟨-, -, eq⟩ <;> rw [eq]
  · rfl
  · rw [stopping_perform]
    rfl

theorem stopping_act {m : Machine} (stopping : m.stopping = true) (a : Action) : (m.act a).stopping = true := by
  cases a with
  | cycle =>
    rw [act, stopping_cycle]
    exact stopping
  | touch t => exact stopping_touch stopping t
  | _ => exact stopping

theorem stopping_through {m : Machine} (stopping : m.stopping = true) (h : List Action) :
    (m.through h).stopping = true :=
  through_induction (P := fun m => m.stopping = true) (fun _ a kept => stopping_act kept a) stopping h

theorem executes_outside {a : Action} (m : Machine) (outside : a ≠ .cycle) : m.executes a = [] := by
  cases a with
  | cycle => contradiction
  | _ => rfl

theorem fetches_outside {a : Action} (m : Machine) (outside : a ≠ .cycle) : m.fetches a = [] := by
  cases a with
  | cycle => contradiction
  | _ => rfl

theorem words_outside (m : Machine) {h : List Action} (outside : ∀ a ∈ h, a ≠ .cycle) : m.words h = [] := by
  induction h generalizing m with
  | nil => rfl
  | cons a rest ih =>
    rw [words, executes_outside m (outside a List.mem_cons_self), List.nil_append]
    exact ih _ fun b member => outside b (List.mem_cons_of_mem a member)

theorem trace_outside (m : Machine) {h : List Action} (outside : ∀ a ∈ h, a ≠ .cycle) : m.trace h = [] := by
  induction h generalizing m with
  | nil => rfl
  | cons a rest ih =>
    rw [trace, fetches_outside m (outside a List.mem_cons_self), List.nil_append]
    exact ih _ fun b member => outside b (List.mem_cons_of_mem a member)

end Machine
end Chip8
