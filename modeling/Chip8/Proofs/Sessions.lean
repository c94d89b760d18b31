import Chip8.Proofs.Footprint
import Chip8.Proofs.Lifecycle
import Chip8.Session.Launch

/-!
# The session of a front end

How it begins (`Session.launch_eq`), and what its steps do from then on: it is over once the run has ended and this
was reported, and then it stays as it is (`Session.step_cases`). When it was asked to stop, few steps are left
(`Session.left_step`).
-/

namespace Chip8.Session

/-- What a front end begins with. -/
def launched (rom : Rom) (config : Config) (random : List UInt8) (now : Nat) : Session where
  clock := config.clockSpeed
  stage := .running
  run := Run.start ((Machine.fresh config random).load rom) config.clockSpeed now
    #[.loaded rom.length, .started config.clockSpeed]

theorem launch_eq {config : Config} (ticks : config.clockSpeed ≠ 0) (rom : Rom) (random : List UInt8) (now : Nat) :
    launch rom config random now = .ok (launched rom config random now) := by
  simp only [launch, Session.new, if_neg ticks]
  rfl

/-- A run goes on, or its end is reported, or nothing is left to do. -/
theorem step_cases (s : Session) (now : Nat) :
    (s.stage = .running ∧ (∀ how, s.run.phase ≠ .ended how) ∧ s.step now = { s with run := s.run.step now }) ∨
    (s.stage = .running ∧ (∃ how, s.run.phase = .ended how ∧ how ≠ .broken) ∧
      s.step now = { s with stage := .over }.report [.finished (milliseconds s.run.began now) s.run.cycles]) ∨
    ((s.stage = .running → s.run.phase = .ended .broken) ∧ s.step now = s) := by
  by_cases running : s.stage = .running
  · by_cases ended : ∃ how, s.run.phase = .ended how
    · obtain ⟨how, ended⟩ := ended
      by_cases whole : how = .broken
      · subst whole
        exact .inr (.inr ⟨fun _ => ended, by simp [step, running, ended]⟩)
      · exact .inr (.inl ⟨running, ⟨how, ended, whole⟩, step_of_ended running ended whole now⟩)
    · have on : ∀ how, s.run.phase ≠ .ended how := fun how eq => ended ⟨how, eq⟩
      exact .inl ⟨running, on, step_of_on running on now⟩
  · refine .inr (.inr ⟨fun eq => absurd eq running, ?_⟩)
    cases stage : s.stage with
    | running => exact absurd stage running
    | _ => simp [step, stage]

/-- No program reaches the keypad. -/
theorem keypad_step (s : Session) (now : Nat) : (s.step now).machine.keypad = s.machine.keypad := by
  have ran : (s.run.step now).machine.keypad = s.run.machine.keypad := by
    rw [show s.run.step now = s.run.move (.step now) from rfl, Run.machine_move]
    rcases s.run.does_step now with does | does | does <;> rw [does]
    · rfl
    · exact Machine.same_cycle (p := .keypad) id
    · rfl
  rcases s.step_cases now with ⟨-, -, eq⟩ | ⟨-, -, eq⟩ | ⟨-, eq⟩
  · rw [eq]
    exact ran
  · rw [eq]
    rfl
  · rw [eq]

/-- The run is on, or it is over and did not break off. -/
def Begun (s : Session) : Prop :=
  s.stage = .running ∨ s.stage = .over ∧ ∃ how, s.run.phase = .ended how ∧ how ≠ .broken

theorem Begun.step {s : Session} (begun : s.Begun) (now : Nat) : (s.step now).Begun := by
  rcases s.step_cases now with ⟨running, -, eq⟩ | ⟨-, ended, eq⟩ | ⟨-, eq⟩
  · rw [eq]
    exact .inl running
  · rw [eq]
    exact .inr ⟨rfl, ended⟩
  · rw [eq]
    exact begun

theorem step_of_over {s : Session} (past : s.stage = .over) (now : Nat) : s.step now = s := by
  simp [Session.step, past]

theorem Begun.over_iff {s : Session} (begun : s.Begun) : s.isRunning = false ↔ s.stage = .over := by
  rcases begun with running | ⟨past, -⟩
  · simp [isRunning, running]
  · simp [isRunning, past]

theorem Begun.ended {s : Session} (begun : s.Begun) (past : s.stage = .over) :
    ∃ how, s.run.phase = .ended how ∧ how ≠ .broken := by
  rcases begun with running | ⟨-, ended⟩
  · rw [past] at running
    cases running
  · exact ended

/-! ## After the wish to stop -/

/-- The steps left of a session that was asked to stop. -/
def left (s : Session) : Nat := if s.stage = .over then 0 else s.run.phase.stepsLeft + 1

theorem left_le (s : Session) : s.left ≤ 4 := by
  have := s.run.phase.left_le
  unfold left
  split <;> omega

theorem stopping_step {s : Session} (asked : s.machine.stopping = true) (now : Nat) :
    (s.step now).machine.stopping = true := by
  obtain ⟨h, eq⟩ := s.machine_step now
  rw [eq]
  exact Machine.stopping_through asked h

theorem left_step {s : Session} (begun : s.Begun) (asked : s.machine.stopping = true)
    (unfinished : s.isFinished = false) (now : Nat) : (s.step now).left + 1 ≤ s.left := by
  simp only [isFinished, Bool.or_eq_false_iff, decide_eq_false_iff_not] at unfinished
  obtain ⟨notOver, notBroken⟩ := unfinished
  rcases s.step_cases now with ⟨running, on, eq⟩ | ⟨running, -, eq⟩ | ⟨stuck, -⟩
  · obtain ⟨-, -, fewer⟩ := Run.asked_step asked now
    have some : s.run.phase.stepsLeft ≠ 0 := fun none => by
      obtain ⟨how, ended⟩ := Phase.ended_of_stepsLeft none
      exact on how ended
    rw [eq]
    simp only [left, running, reduceCtorEq, ↓reduceIte]
    omega
  · rw [eq]
    simp [left, report, running]
  · rcases begun with running | ⟨past, -⟩
    · exact absurd (stuck running) notBroken
    · exact absurd past notOver

end Chip8.Session
