import Chip8.Proofs.History
import Chip8.Run

/-!
# Moves of a run

What happens while a run is on: its own small steps, at whatever times the clock shows, and between any two of
them whatever other threads do to its machine.
-/

namespace Chip8

/-- One thing that happens while a run is on. -/
inductive Move
  | step (now : Nat)
  | touch (t : Touch)

namespace Run

/-- The run after one thing has happened. -/
def move (r : Run) : Move → Run
  | .step now => r.step now
  | .touch t => r.mapMachine (·.touch t)

/-- The run after many things have happened, one after another. -/
def after (r : Run) : List Move → Run
  | [] => r
  | a :: rest => (r.move a).after rest

/-- What every move keeps, every run keeps. -/
theorem after_induction {P : Run → Prop} (kept : ∀ r a, P r → P (r.move a)) {r : Run} (start : P r)
    (moves : List Move) : P (r.after moves) := by
  induction moves generalizing r with
  | nil => exact start
  | cons a rest ih => exact ih (kept r a start)

/-- The four ways in which a run tries a cycle. -/
theorem cycle_cases (r : Run) :
    let c := r.machine.cycle
    (c.outcome = .done ∧ r.cycle = r.cycled c.machine c.note.toList .ticking) ∨
    (c.outcome = .halted ∧
      r.cycle = r.cycled c.machine (c.note.toList ++ [.aborted, .registers c.machine.registers]) (.ended .halted)) ∨
    (c.outcome = .waiting ∧ r.cycle = r) ∨
    (c.outcome = .overflow ∧ r.cycle = r.cycled c.machine c.note.toList (.ended .broken)) := by
  intro c
  unfold cycle
  cases out : c.outcome <;> simp [c, out]

end Run
end Chip8
