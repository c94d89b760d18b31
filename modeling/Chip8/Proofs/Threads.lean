import Chip8.Proofs.RunHistory
import Chip8.Session

/-!
# The threads of a session

A session has an owner, who starts it, or spawns a thread that does. Two flags go with it: `running` is what
everybody sees, and `finished` says that there was a run. Here the flags and the session are changed one small
step at a time, so that any thread can look at the flag and touch the machine between any two of them. A run that
breaks off takes its thread with it: there is no step behind it.
-/

namespace Chip8

/-- Where the thread stands that runs a session. It looks whether there was a run before, announces the run, opens
it, and loops while the run is on. Then it marks that there was one, clears the announcement, closes with a
report, and returns. -/
inductive Point
  | looking
  | announcing
  | opening
  | looping
  | marking
  | clearing
  | closing
  | returned (result : Except Error Summary)

/-- Where an owner stands who is about to spawn a thread. -/
inductive Launch
  | looking
  | announcing
  | creating

/-- What an owner has of a thread that was spawned: its handle to come, its handle, or what it left. -/
inductive Grip
  | handing
  | handling
  | joined

/-- Who has a session. The owner holds it, or starts it and so runs it, or is spawning a thread, which then runs it. A
refused owner has lost it. -/
inductive Place
  | holding
  | starting (point : Point)
  | spawning (launch : Launch)
  | spawned (grip : Grip) (point : Point)
  | refused

/-- Where the thread stands that runs the session, if one does. -/
def Place.point? : Place → Option Point
  | .starting p | .spawned _ p => some p
  | _ => none

/-- What threads share: a session, and flags that tell how far it is. -/
structure Shared where
  session : Session
  /-- What everybody sees of the run. -/
  running : Bool
  /-- Whether there was a run. -/
  finished : Bool

/-- What threads share, and who has it. -/
structure Threads where
  shared : Shared
  place : Place

/-- What happens next: the owner makes a call, or goes on in one; the thread that runs the session goes on at a time;
some thread touches the machine, or looks whether the session runs. -/
inductive Turn
  | start
  | spawn
  | join
  | owner
  | driver (now : Nat)
  | touch (u : Touch)
  | look

namespace Turn

def isDriver : Turn → Bool
  | .driver _ => true
  | _ => false

/-- Whether a turn is one of the owner. -/
def isOwner : Turn → Bool
  | .start | .spawn | .join | .owner => true
  | _ => false

/-- What a turn does to the machine from outside. -/
def outside : Turn → List Action
  | .touch u => [.touch u]
  | _ => []

end Turn

/-- What a call comes to. -/
inductive Reply
  | started (result : Except Error Summary)
  | spawned (result : Except Error Unit)
  | joined (result : Except Error Summary)
  | seen (running : Bool)

namespace Reply

/-- Whether a session was started or spawned. -/
def succeeds : Reply → Bool
  | .started (.ok _) | .spawned (.ok _) => true
  | _ => false

def seen? : Reply → Option Bool
  | .seen b => some b
  | _ => none

end Reply

/-- The session with its run begun, if there was none. -/
def Session.opened (s : Session) (now : Nat) : Session := (s.begin now).toOption.getD s

namespace Shared

/-- What the running thread does at a point, and where it stands then. -/
def drive (s : Shared) (now : Nat) : Point → Shared × Point
  | .looking => (s, if s.finished then .returned (.error .alreadyStopped) else .announcing)
  | .announcing => ({ s with running := true }, .opening)
  | .opening => ({ s with session := s.session.opened now }, .looping)
  | .looping =>
    match s.session.run.phase with
    | .ended .broken => (s, .looping)
    | .ended _ => (s, .marking)
    | _ => ({ s with session := s.session.step now }, .looping)
  | .marking => ({ s with finished := true }, .clearing)
  | .clearing => ({ s with running := false }, .closing)
  | .closing => ({ s with session := s.session.step now }, .returned (s.session.step now).summary)
  | .returned r => (s, .returned r)

/-- What a thread leaves to be joined. -/
def result? (s : Shared) : Point → Option (Except Error Summary)
  | .returned r => some r
  | .looping => if s.session.run.phase = .ended .broken then some (.error .brokenThread) else none
  | _ => none

def touch (s : Shared) (t : Touch) : Shared := { s with session := s.session.mapMachine (·.touch t) }

end Shared

namespace Threads

/-- A session for a machine, in the hands of its owner. -/
def new (m : Machine) (clock : UInt32) (log : Array Event) : Except Error Threads :=
  (Session.new m clock log).map fun s => ⟨⟨s, false, false⟩, .holding⟩

/-- What the owner does next in a call. -/
def own (s : Shared) : Place → Threads
  | .starting (.returned _) => ⟨s, .holding⟩
  | .spawning .looking => ⟨s, if s.finished then .refused else .spawning .announcing⟩
  | .spawning .announcing => ⟨{ s with running := true }, .spawning .creating⟩
  | .spawning .creating => ⟨s, .spawned .handing .looking⟩
  | .spawned .handing p => ⟨s, .spawned .handling p⟩
  | l => ⟨s, l⟩

def join (s : Shared) : Place → Threads
  | .spawned .handling p => ⟨s, .spawned (if (s.result? p).isSome then .joined else .handling) p⟩
  | l => ⟨s, l⟩

def call (s : Shared) (next : Place) : Place → Threads
  | .holding => ⟨s, next⟩
  | l => ⟨s, l⟩

/-- The running thread goes on, if there is one. -/
def advance (s : Shared) (now : Nat) : Place → Threads
  | .starting p => ⟨(s.drive now p).1, .starting (s.drive now p).2⟩
  | .spawned g p => ⟨(s.drive now p).1, .spawned g (s.drive now p).2⟩
  | l => ⟨s, l⟩

/-- The threads after a turn. A call that cannot be made, or cannot go on, changes nothing. -/
def turn (t : Threads) : Turn → Threads
  | .start => call t.shared (.starting .looking) t.place
  | .spawn => call t.shared (.spawning .looking) t.place
  | .join => join t.shared t.place
  | .owner => own t.shared t.place
  | .driver now => advance t.shared now t.place
  | .touch u => { t with shared := t.shared.touch u }
  | .look => t

/-- What a turn replies. -/
def reply (t : Threads) : Turn → Option Reply
  | .join =>
    match t.place with
    | .spawned .handling p => (t.shared.result? p).map .joined
    | _ => none
  | .owner =>
    match t.place with
    | .starting (.returned r) => some (.started r)
    | .spawning .looking => if t.shared.finished then some (.spawned (.error .alreadyStopped)) else none
    | .spawned .handing _ => some (.spawned (.ok ()))
    | _ => none
  | .look => some (.seen t.shared.running)
  | _ => none

def after (t : Threads) : List Turn → Threads
  | [] => t
  | a :: rest => (t.turn a).after rest

def replies (t : Threads) : List Turn → List Reply
  | [] => []
  | a :: rest => (t.reply a).toList ++ (t.turn a).replies rest

/-- All that can be replied, and when. -/
theorem reply_cases {t : Threads} {a : Turn} {r : Reply} (replied : t.reply a = some r) :
    (a = .look ∧ r = .seen t.shared.running) ∨
    (a = .owner ∧ ∃ result, t.place = .starting (.returned result) ∧ r = .started result) ∨
    (a = .owner ∧ t.place = .spawning .looking ∧ t.shared.finished = true ∧ r = .spawned (.error .alreadyStopped)) ∨
    (a = .owner ∧ ∃ p, t.place = .spawned .handing p ∧ r = .spawned (.ok ())) ∨
    (a = .join ∧ ∃ p result, t.place = .spawned .handling p ∧ t.shared.result? p = some result ∧
      r = .joined result) := by
  unfold reply at replied
  split at replied
  · split at replied
    · rename_i p place
      obtain ⟨result, left, eq⟩ := Option.map_eq_some_iff.mp replied
      exact .inr (.inr (.inr (.inr ⟨rfl, p, result, place, left, eq.symm⟩)))
    · cases replied
  · split at replied
    · rename_i result place
      cases replied
      exact .inr (.inl ⟨rfl, result, place, rfl⟩)
    · rename_i place
      split at replied
      · rename_i finished
        cases replied
        exact .inr (.inr (.inl ⟨rfl, place, finished, rfl⟩))
      · cases replied
    · rename_i p place
      cases replied
      exact .inr (.inr (.inr (.inl ⟨rfl, p, place, rfl⟩)))
    · cases replied
  · cases replied
    exact .inl ⟨rfl, rfl⟩
  · cases replied

/-- Only touches and the running thread change the session. -/
theorem session_turn (t : Threads) (a : Turn) :
    (t.turn a).shared.session = match a, t.place.point? with
      | .touch u, _ => t.shared.session.mapMachine (·.touch u)
      | .driver now, some p => (t.shared.drive now p).1.session
      | _, _ => t.shared.session := by
  obtain ⟨s, l⟩ := t
  cases a with
  | join =>
    simp only [turn, join]
    split <;> rfl
  | owner =>
    simp only [turn, own]
    split <;> rfl
  | start | spawn | driver now => cases l <;> rfl
  | touch u => rfl
  | look => rfl

theorem after_append (t : Threads) (turns more : List Turn) : t.after (turns ++ more) = (t.after turns).after more := by
  induction turns generalizing t with
  | nil => rfl
  | cons a rest ih => exact ih (t.turn a)

/-- What every turn keeps, every sequence of turns keeps. -/
theorem after_induction {P : Threads → Prop} (kept : ∀ t a, P t → P (t.turn a)) {t : Threads} (start : P t)
    (turns : List Turn) : P (t.after turns) := by
  induction turns generalizing t with
  | nil => exact start
  | cons a rest ih => exact ih (kept t a start)

end Threads

/-! ## Consistency -/

namespace Shared

/-- How far the flags and the session are. -/
structure Shows (s : Shared) (running finished : Bool) (stage : Stage) : Prop where
  running : s.running = running
  finished : s.finished = finished
  stage : s.session.stage = stage

/-- The run has ended, and it did not break off. -/
def Whole (s : Shared) : Prop := ∃ how, s.session.run.phase = .ended how ∧ how ≠ .broken

/-- There was a run, and all has been said of it. -/
structure Over (s : Shared) : Prop where
  flags : s.Shows false true .over
  whole : s.Whole

/-- How old a session is: before its run is said to be on, meanwhile, and afterwards. -/
def age (s : Shared) : Nat := if s.running then 1 else if s.finished then 2 else 0

end Shared

/-- What goes with a running thread at a point. A thread that was spawned finds the run announced already. -/
def Point.Fits (s : Shared) (launched : Bool) : Point → Prop
  | .looking => s.Shows launched false .ready ∨ launched = false ∧ s.Over
  | .announcing => s.Shows launched false .ready
  | .opening => s.Shows true false .ready
  | .looping => s.Shows true false .running
  | .marking => s.Shows true false .running ∧ s.Whole
  | .clearing => s.Shows true true .running ∧ s.Whole
  | .closing => s.Shows false true .running ∧ s.Whole
  | .returned (.ok summary) => s.Over ∧ s.session.summary = .ok summary
  | .returned (.error e) => s.Over ∧ launched = false ∧ e = .alreadyStopped

def Place.Fits (s : Shared) : Place → Prop
  | .holding | .spawning .looking => s.Shows false false .ready ∨ s.Over
  | .spawning .announcing => s.Shows false false .ready
  | .spawning .creating => s.Shows true false .ready
  | .starting p => p.Fits s false
  | .spawned _ p => p.Fits s true
  | .refused => s.Over

/-! ## Every turn keeps it -/

theorem Session.opened_of_ready {s : Session} (ready : s.stage = .ready) (now : Nat) :
    s.opened now =
      { s with stage := .running, run := Run.start s.machine s.clock now (s.run.log.push (.started s.clock)) } := by
  simp [opened, begin, ready, Except.toOption]

theorem Session.step_of_on {s : Session} (running : s.stage = .running) (on : ∀ how, s.run.phase ≠ .ended how)
    (now : Nat) : s.step now = { s with run := s.run.step now } := by
  cases phase : s.run.phase with
  | ended how => exact absurd phase (on how)
  | _ => simp [step, running, phase]

theorem Session.step_of_ended {s : Session} {how : Ending} (running : s.stage = .running)
    (ended : s.run.phase = .ended how) (whole : how ≠ .broken) (now : Nat) :
    s.step now = { s with stage := .over }.report [.finished (milliseconds s.run.began now) s.run.cycles] := by
  cases how with
  | broken => contradiction
  | _ => simp [step, running, ended]

theorem Session.summary_of_ended {s : Session} {how : Ending} (ended : s.run.phase = .ended how)
    (whole : how ≠ .broken) : s.summary = .ok ⟨s.run.cycles, how = .halted⟩ := by
  cases how with
  | broken => contradiction
  | _ => simp [summary, ended]

namespace Shared

variable {s : Shared} {launched : Bool} {p : Point}

theorem drive_looping (running : s.session.stage = .running) (now : Nat) :
    (s.session.run.phase = .ended .broken ∧ s.drive now .looping = (s, .looping)) ∨
    (s.Whole ∧ s.drive now .looping = (s, .marking)) ∨
    ((∀ how, s.session.run.phase ≠ .ended how) ∧
      s.drive now .looping =
        ({ s with session := { s.session with run := s.session.run.step now } }, .looping)) := by
  cases phase : s.session.run.phase with
  | ended how =>
    cases how with
    | broken => exact .inl ⟨rfl, by simp [drive, phase]⟩
    | stopped => exact .inr (.inl ⟨⟨.stopped, phase, by decide⟩, by simp [drive, phase]⟩)
    | halted => exact .inr (.inl ⟨⟨.halted, phase, by decide⟩, by simp [drive, phase]⟩)
  | _ =>
    have on : ∀ how, s.session.run.phase ≠ .ended how := by simp [phase]
    refine .inr (.inr ⟨by simp, ?_⟩)
    simp [drive, phase, Session.step_of_on running on]

/-- What a thread does at a point leaves all consistent, and no younger. -/
theorem fits_drive (fits : p.Fits s launched) (now : Nat) :
    (s.drive now p).2.Fits (s.drive now p).1 launched ∧ s.age ≤ (s.drive now p).1.age := by
  cases p with
  | looking =>
    refine ⟨?_, Nat.le_refl _⟩
    rcases fits with fresh | ⟨held, past⟩
    · rw [drive, fresh.finished]
      exact fresh
    · rw [drive, past.flags.finished]
      exact ⟨past, held, rfl⟩
  | announcing =>
    obtain ⟨-, finished, stage⟩ := fits
    refine ⟨⟨rfl, finished, stage⟩, ?_⟩
    simp only [age, drive, finished]
    cases s.running <;> simp
  | opening =>
    obtain ⟨running, finished, stage⟩ := fits
    have begun : (s.session.opened now).stage = .running := by rw [Session.opened_of_ready stage]
    exact ⟨⟨running, finished, begun⟩, Nat.le_refl _⟩
  | looping =>
    rcases drive_looping fits.stage now with ⟨-, eq⟩ | ⟨whole, eq⟩ | ⟨-, eq⟩ <;> rw [eq]
    · exact ⟨fits, Nat.le_refl _⟩
    · exact ⟨⟨fits, whole⟩, Nat.le_refl _⟩
    · exact ⟨⟨fits.running, fits.finished, fits.stage⟩, Nat.le_refl _⟩
  | marking =>
    obtain ⟨⟨running, -, stage⟩, whole⟩ := fits
    refine ⟨⟨⟨running, rfl, stage⟩, whole⟩, ?_⟩
    simp [age, drive, running]
  | clearing =>
    obtain ⟨⟨running, finished, stage⟩, whole⟩ := fits
    refine ⟨⟨⟨rfl, finished, stage⟩, whole⟩, ?_⟩
    simp [age, drive, running, finished]
  | closing =>
    obtain ⟨⟨running, finished, stage⟩, how, ended, whole⟩ := fits
    have reported := Session.step_of_ended stage ended whole now
    have endedThen : (s.session.step now).run.phase = .ended how := by
      rw [reported]
      exact ended
    have told := Session.summary_of_ended endedThen whole
    refine ⟨?_, Nat.le_refl _⟩
    rw [drive, told]
    have past : ({ s with session := s.session.step now } : Shared).Over :=
      ⟨⟨running, finished, by rw [reported]; rfl⟩, how, endedThen, whole⟩
    exact ⟨past, told⟩
  | returned r => exact ⟨fits, Nat.le_refl _⟩

theorem Shows.touch {running finished : Bool} {stage : Stage} (flags : s.Shows running finished stage) (t : Touch) :
    (s.touch t).Shows running finished stage :=
  ⟨flags.running, flags.finished, flags.stage⟩

theorem Over.touch (past : s.Over) (t : Touch) : (s.touch t).Over := ⟨past.flags.touch t, past.whole⟩

theorem point_fits_touch (fits : p.Fits s launched) (t : Touch) : p.Fits (s.touch t) launched := by
  cases p with
  | looking =>
    rcases fits with fresh | ⟨held, past⟩
    · exact .inl (fresh.touch t)
    · exact .inr ⟨held, past.touch t⟩
  | announcing | opening | looping => exact Shows.touch fits t
  | marking | clearing | closing => exact ⟨fits.1.touch t, fits.2⟩
  | returned r =>
    cases r with
    | ok summary => exact ⟨fits.1.touch t, fits.2⟩
    | error e => exact ⟨fits.1.touch t, fits.2⟩

theorem place_fits_touch {l : Place} (fits : l.Fits s) (t : Touch) : l.Fits (s.touch t) := by
  have ready (either : s.Shows false false .ready ∨ s.Over) :
      (s.touch t).Shows false false .ready ∨ (s.touch t).Over := by
    rcases either with fresh | past
    · exact .inl (fresh.touch t)
    · exact .inr (past.touch t)
  cases l with
  | holding => exact ready fits
  | starting p => exact point_fits_touch fits t
  | spawned g p => exact point_fits_touch fits t
  | spawning l =>
    cases l with
    | looking => exact ready fits
    | _ => exact Shows.touch fits t
  | refused => exact Over.touch fits t

end Shared

namespace Threads

def Fits (t : Threads) : Prop := t.place.Fits t.shared

theorem Fits.point {t : Threads} (fits : t.Fits) {p : Point} (there : t.place.point? = some p) :
    ∃ launched, p.Fits t.shared launched := by
  obtain ⟨s, l⟩ := t
  cases l with
  | starting q =>
    cases there
    exact ⟨false, fits⟩
  | spawned g q =>
    cases there
    exact ⟨true, fits⟩
  | _ => cases there

theorem new_eq (m : Machine) {clock : UInt32} (ticks : clock ≠ 0) (log : Array Event) :
    new m clock log = .ok ⟨⟨⟨clock, .ready, Run.start m clock 0 log⟩, false, false⟩, .holding⟩ := by
  simp [new, Session.new, ticks, Except.map]

/-- Every turn leaves all consistent, and no younger. -/
theorem fits_turn {t : Threads} (fits : t.Fits) (a : Turn) :
    (t.turn a).Fits ∧ t.shared.age ≤ (t.turn a).shared.age := by
  obtain ⟨s, place⟩ := t
  change place.Fits s at fits
  cases a with
  | start =>
    cases place with
    | holding =>
      refine ⟨?_, Nat.le_refl _⟩
      rcases fits with fresh | past
      · exact .inl fresh
      · exact .inr ⟨rfl, past⟩
    | _ => exact ⟨fits, Nat.le_refl _⟩
  | spawn =>
    cases place <;> exact ⟨fits, Nat.le_refl _⟩
  | join =>
    cases place with
    | spawned g p =>
      cases g <;> exact ⟨fits, Nat.le_refl _⟩
    | _ => exact ⟨fits, Nat.le_refl _⟩
  | owner =>
    cases place with
    | starting p =>
      cases p with
      | returned r =>
        refine ⟨.inr ?_, Nat.le_refl _⟩
        cases r with
        | ok summary => exact fits.1
        | error e => exact fits.1
      | _ => exact ⟨fits, Nat.le_refl _⟩
    | spawning l =>
      cases l with
      | looking =>
        refine ⟨?_, Nat.le_refl _⟩
        rcases fits with fresh | past
        · simp only [Fits, turn, own, fresh.finished]
          exact fresh
        · simp only [Fits, turn, own, past.flags.finished]
          exact past
      | announcing =>
        obtain ⟨running, finished, stage⟩ := fits
        refine ⟨⟨rfl, finished, stage⟩, ?_⟩
        simp [Shared.age, turn, own, running, finished]
      | creating => exact ⟨.inl fits, Nat.le_refl _⟩
    | spawned g p =>
      cases g <;> exact ⟨fits, Nat.le_refl _⟩
    | _ => exact ⟨fits, Nat.le_refl _⟩
  | driver now =>
    cases place with
    | starting p => exact Shared.fits_drive fits now
    | spawned g p => exact Shared.fits_drive fits now
    | _ => exact ⟨fits, Nat.le_refl _⟩
  | touch u => exact ⟨Shared.place_fits_touch fits u, Nat.le_refl _⟩
  | look => exact ⟨fits, Nat.le_refl _⟩

theorem fits_after {t : Threads} (fits : t.Fits) (turns : List Turn) : (t.after turns).Fits :=
  after_induction (P := Fits) (fun _ a kept => (fits_turn kept a).1) fits turns

end Threads
end Chip8
