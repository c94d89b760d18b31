import Chip8.Proofs.Threads

/-!
# The life of a session

Whatever the threads do and in whatever order, a session is run at most once. Everybody sees it off, then on, then
off for good (`Threads.observed`); one call to start or to spawn succeeds at most, and a session that is over
refuses all others and stays as it is. A machine that was asked to stop is not run any more, by no session
(`Threads.session_lives_once`).
-/

namespace Chip8

/-! ## What is seen of the flag -/

/-- What is seen of a flag that is first off, then on, then off for good, from some age on. -/
def Observed (age : Nat) (seen : List Bool) : Prop :=
  ∃ before on after, seen = List.replicate before false ++ List.replicate on true ++ List.replicate after false ∧
    (1 ≤ age → before = 0) ∧ (2 ≤ age → on = 0)

theorem Observed.younger {age older : Nat} {seen : List Bool} (observed : Observed older seen) (le : age ≤ older) :
    Observed age seen := by
  obtain ⟨before, on, after, eq, first, second⟩ := observed
  exact ⟨before, on, after, eq, fun more => first (by omega), fun more => second (by omega)⟩

theorem Observed.cons {s : Shared} {seen : List Bool} (observed : Observed s.age seen) :
    Observed s.age (s.running :: seen) := by
  obtain ⟨before, on, after, rfl, first, second⟩ := observed
  unfold Shared.age at first second ⊢
  cases running : s.running with
  | true =>
    simp only [running, ↓reduceIte] at first
    exact ⟨0, on + 1, after, by simp [first, List.replicate_succ], fun _ => rfl, fun two => by simp at two⟩
  | false =>
    cases finished : s.finished with
    | true =>
      simp only [running, finished, ↓reduceIte, Bool.false_eq_true] at first second
      exact ⟨0, 0, after + 1, by simp [first, second, List.replicate_succ], fun _ => rfl, fun _ => rfl⟩
    | false =>
      exact ⟨before + 1, on, after, by simp [List.replicate_succ], fun one => by simp at one, fun two => by simp at two⟩

namespace Threads

theorem seen_eq_nil {t : Threads} {a : Turn} (other : a ≠ .look) : (t.reply a).toList.filterMap Reply.seen? = [] := by
  cases replied : t.reply a with
  | none => rfl
  | some r =>
    rcases reply_cases replied with ⟨looks, -⟩ | ⟨-, _, -, rfl⟩ | ⟨-, -, -, rfl⟩ | ⟨-, _, -, rfl⟩ | ⟨-, _, _, -, -, rfl⟩
    · exact absurd looks other
    · rfl
    · rfl
    · rfl
    · rfl

theorem observed {t : Threads} (fits : t.Fits) (turns : List Turn) :
    Observed t.shared.age ((t.replies turns).filterMap Reply.seen?) := by
  induction turns generalizing t with
  | nil => exact ⟨0, 0, 0, rfl, fun _ => rfl, fun _ => rfl⟩
  | cons a rest ih =>
    obtain ⟨fitsThen, older⟩ := fits_turn fits a
    have later := (ih fitsThen).younger older
    rw [replies, List.filterMap_append]
    by_cases looks : a = .look
    · subst looks
      exact later.cons
    · rw [seen_eq_nil looks, List.nil_append]
      exact later

/-! ## One call succeeds -/

/-- How many calls to start or to spawn can still succeed. -/
def credit (t : Threads) : Nat :=
  match t.place with
  | .holding | .spawning .looking | .starting .looking => if t.shared.finished then 0 else 1
  | .starting (.returned (.error _)) | .refused => 0
  | .starting _ | .spawning _ | .spawned .handing _ => 1
  | .spawned _ _ => 0

theorem credit_le_one (t : Threads) : t.credit ≤ 1 := by
  unfold credit
  split <;> (try split) <;> decide

theorem credit_drive (s : Shared) (p : Point) (now : Nat) :
    credit ⟨(s.drive now p).1, .starting (s.drive now p).2⟩ ≤ credit ⟨s, .starting p⟩ := by
  cases p with
  | looking => cases finished : s.finished <;> simp [credit, Shared.drive, finished]
  | returned r => exact Nat.le_refl _
  | _ => exact credit_le_one _

theorem credit_turn {t : Threads} (fits : t.Fits) (a : Turn) :
    (t.reply a).toList.countP Reply.succeeds + (t.turn a).credit ≤ t.credit := by
  obtain ⟨s, place⟩ := t
  -- most turns reply nothing and leave the credit as it is
  have silent {t u : Threads} (none : t.reply a = none) (same : u.credit ≤ t.credit) :
      (t.reply a).toList.countP Reply.succeeds + u.credit ≤ t.credit := by
    rw [none, Option.toList_none, List.countP_nil, Nat.zero_add]
    exact same
  cases a with
  | start => cases place <;> exact silent rfl (Nat.le_refl _)
  | spawn => cases place <;> exact silent rfl (Nat.le_refl _)
  | touch u => exact silent rfl (Nat.le_refl _)
  | look => exact Nat.le_of_eq (Nat.zero_add _)
  | join =>
    cases place with
    | spawned g p =>
      cases g with
      | handling =>
        cases left : s.result? p <;> simp [reply, turn, join, left, credit, Reply.succeeds]
      | _ => exact silent rfl (Nat.le_refl _)
    | _ => exact silent rfl (Nat.le_refl _)
  | driver now =>
    cases place with
    | starting p => exact silent rfl (credit_drive s p now)
    | spawned g p => cases g <;> exact silent rfl (Nat.le_refl _)
    | _ => exact silent rfl (Nat.le_refl _)
  | owner =>
    cases place with
    | starting p =>
      cases p with
      | returned r =>
        cases r with
        | ok summary =>
          have past : s.Over := fits.1
          simp [reply, turn, own, credit, Reply.succeeds, past.flags.finished]
        | error e =>
          have past : s.Over := fits.1
          simp [reply, turn, own, credit, Reply.succeeds, past.flags.finished]
      | _ => exact silent rfl (Nat.le_refl _)
    | spawning l =>
      cases l with
      | looking => cases finished : s.finished <;> simp [reply, turn, own, credit, Reply.succeeds, finished]
      | _ => exact silent rfl (Nat.le_refl _)
    | spawned g p =>
      cases g with
      | handing => exact Nat.le_refl 1
      | _ => exact silent rfl (Nat.le_refl _)
    | _ => exact silent rfl (Nat.le_refl _)

theorem succeeds_le_credit {t : Threads} (fits : t.Fits) (turns : List Turn) :
    (t.replies turns).countP Reply.succeeds ≤ t.credit := by
  induction turns generalizing t with
  | nil => exact Nat.zero_le _
  | cons a rest ih =>
    have now := credit_turn fits a
    have later := ih (fits_turn fits a).1
    rw [replies, List.countP_append]
    omega

end Threads

/-! ## What the flag tells of the run -/

namespace Shared

variable {s : Shared} {launched : Bool} {p : Point}

theorem point_cases (fits : p.Fits s launched) :
    (s.running = true ∧ s.session.stage ≠ .over) ∨ s.Shows launched false .ready ∨
      (s.Shows false true .running ∧ s.Whole) ∨ s.Over := by
  have on {finished : Bool} {stage : Stage} (flags : s.Shows true finished stage) (early : stage ≠ .over) :
      s.running = true ∧ s.session.stage ≠ .over := ⟨flags.running, by rw [flags.stage]; exact early⟩
  cases p with
  | looking =>
    rcases fits with fresh | ⟨-, past⟩
    · exact .inr (.inl fresh)
    · exact .inr (.inr (.inr past))
  | announcing => exact .inr (.inl fits)
  | opening => exact .inl (on fits (by decide))
  | looping => exact .inl (on fits (by decide))
  | marking => exact .inl (on fits.1 (by decide))
  | clearing => exact .inl (on fits.1 (by decide))
  | closing => exact .inr (.inr (.inl fits))
  | returned r =>
    refine .inr (.inr (.inr ?_))
    cases r with
    | ok summary => exact fits.1
    | error e => exact fits.1

/-- How far a session is, whoever has it. -/
theorem place_cases {l : Place} (fits : l.Fits s) :
    (s.running = true ∧ s.session.stage ≠ .over) ∨ s.session.stage = .ready ∨
      (s.session.stage = .running ∧ s.Whole) ∨ s.Over := by
  have pointed (launched : Bool) (p : Point) (fits : p.Fits s launched) :
      (s.running = true ∧ s.session.stage ≠ .over) ∨ s.session.stage = .ready ∨
        (s.session.stage = .running ∧ s.Whole) ∨ s.Over := by
    rcases point_cases fits with on | ready | ⟨flags, whole⟩ | past
    · exact .inl on
    · exact .inr (.inl ready.stage)
    · exact .inr (.inr (.inl ⟨flags.stage, whole⟩))
    · exact .inr (.inr (.inr past))
  cases l with
  | holding => exact pointed false .looking (Or.imp_right (fun past => ⟨rfl, past⟩) fits)
  | starting p => exact pointed false p fits
  | spawned g p => exact pointed true p fits
  | refused => exact .inr (.inr (.inr fits))
  | spawning l =>
    cases l with
    | looking => exact pointed false .looking (Or.imp_right (fun past => ⟨rfl, past⟩) fits)
    | announcing => exact .inr (.inl (Shows.stage fits))
    | creating => exact .inr (.inl (Shows.stage fits))

end Shared

namespace Threads

theorem running_of_on {t : Threads} (fits : t.Fits) (begun : t.shared.session.isRunning = true)
    (on : ∀ how, t.shared.session.run.phase ≠ .ended how) : t.shared.running = true := by
  rw [Session.isRunning, decide_eq_true_eq] at begun
  rcases Shared.place_cases fits with ⟨running, -⟩ | ready | ⟨-, how, ended, -⟩ | past
  · exact running
  · rw [begun] at ready
    cases ready
  · exact absurd ended (on how)
  · have stage := past.flags.stage
    rw [begun] at stage
    cases stage

/-- As soon as there is a thread, the run is said to be on until it has ended. -/
theorem running_of_spawned {t : Threads} (fits : t.Fits) {g : Grip} {p : Point} (spawned : t.place = .spawned g p) :
    t.shared.running = true ∨ ∃ how, t.shared.session.run.phase = .ended how := by
  have pointed : p.Fits t.shared true := by
    unfold Fits at fits
    rw [spawned] at fits
    exact fits
  rcases Shared.point_cases pointed with ⟨running, -⟩ | announced | ⟨-, how, ended, -⟩ | past
  · exact .inl running
  · exact .inl announced.running
  · exact .inr ⟨how, ended⟩
  · obtain ⟨how, ended, -⟩ := past.whole
    exact .inr ⟨how, ended⟩

theorem over_of_stage {t : Threads} (fits : t.Fits) (stage : t.shared.session.stage = .over) : t.shared.Over := by
  rcases Shared.place_cases fits with ⟨-, early⟩ | ready | ⟨running, -⟩ | past
  · exact absurd stage early
  · rw [stage] at ready
    cases ready
  · rw [stage] at running
    cases running
  · exact past

/-! ## After the run -/

end Threads

/-- The places of a session whose owner has run it, or finds that there was a run. -/
inductive Place.Idle : Place → Prop
  | holding : Idle .holding
  | looking : Idle (.starting .looking)
  | refusing : Idle (.starting (.returned (.error .alreadyStopped)))
  | spawning : Idle (.spawning .looking)
  | refused : Idle .refused

/-- A refusal, or a look at a flag that is off. -/
def Reply.refuses : Reply → Bool
  | .seen false | .started (.error .alreadyStopped) | .spawned (.error .alreadyStopped) => true
  | _ => false

namespace Session

/-- Acts on the machine from outside, by one action after another. -/
def acted (s : Session) (h : List Action) : Session := s.mapMachine (·.through h)

theorem acted_append (s : Session) (h g : List Action) : s.acted (h ++ g) = (s.acted h).acted g := by
  simp only [acted, mapMachine, Run.mapMachine, Machine.through_append]

end Session

namespace Threads

/-- A session that is over refuses to be run, and only touches change it. -/
theorem idle_turn {s : Shared} {l : Place} (past : s.Over) (idle : l.Idle) (a : Turn) :
    (turn ⟨s, l⟩ a).place.Idle ∧ (∀ r ∈ (reply ⟨s, l⟩ a).toList, r.refuses = true) ∧
      (turn ⟨s, l⟩ a).shared = { s with session := s.session.acted a.outside } := by
  have finished := past.flags.finished
  have silent {l : Place} {a : Turn} (none : reply ⟨s, l⟩ a = none) :
      ∀ r ∈ (reply ⟨s, l⟩ a).toList, r.refuses = true := by simp [none]
  have refusal {l : Place} {a : Turn} {r : Reply} (replied : reply ⟨s, l⟩ a = some r) (refuses : r.refuses = true) :
      ∀ r ∈ (reply ⟨s, l⟩ a).toList, r.refuses = true := by simp [replied, refuses]
  cases a with
  | start => cases idle <;> exact ⟨by constructor, silent rfl, rfl⟩
  | spawn => cases idle <;> exact ⟨by constructor, silent rfl, rfl⟩
  | join => cases idle <;> exact ⟨by constructor, silent rfl, rfl⟩
  | touch u => exact ⟨idle, silent rfl, rfl⟩
  | look => exact ⟨idle, refusal rfl (by rw [past.flags.running]; rfl), rfl⟩
  | driver now =>
    cases idle with
    | looking =>
      have told : s.drive now .looking = (s, .returned (.error .alreadyStopped)) := by
        rw [Shared.drive, finished]
        rfl
      refine ⟨?_, silent rfl, ?_⟩
      · simp only [turn, advance, told]
        exact .refusing
      · simp only [turn, advance, told]
        rfl
    | _ => exact ⟨by constructor, silent rfl, rfl⟩
  | owner =>
    cases idle with
    | refusing => exact ⟨.holding, refusal rfl rfl, rfl⟩
    | spawning =>
      refine ⟨?_, refusal (r := .spawned (.error .alreadyStopped)) (by simp [reply, finished]) rfl, rfl⟩
      simp only [turn, own, finished, ↓reduceIte]
      exact .refused
    | _ => exact ⟨by constructor, silent rfl, rfl⟩

theorem idle_after {t : Threads} (past : t.shared.Over) (idle : t.place.Idle) (turns : List Turn) :
    (∀ r ∈ t.replies turns, r.refuses = true) ∧
      (t.after turns).shared =
        { t.shared with session := t.shared.session.acted (turns.flatMap Turn.outside) } := by
  induction turns generalizing t with
  | nil => exact ⟨(fun r member => nomatch member), rfl⟩
  | cons a rest ih =>
    obtain ⟨s, l⟩ := t
    obtain ⟨idleThen, refuses, same⟩ := idle_turn past idle a
    have overThen : (turn ⟨s, l⟩ a).shared.Over := by
      rw [same]
      exact ⟨⟨past.flags.running, past.flags.finished, past.flags.stage⟩, past.whole⟩
    obtain ⟨later, shared⟩ := ih overThen idleThen
    refine ⟨?_, ?_⟩
    · intro r member
      rcases List.mem_append.mp member with now | after
      · exact refuses r now
      · exact later r after
    · rw [Threads.after, shared, same, List.flatMap_cons, Session.acted_append]

end Threads

/-! ## The wish to stop -/

theorem Session.machine_step (s : Session) (now : Nat) : ∃ h, (s.step now).machine = s.machine.through h := by
  unfold step
  split
  · exact ⟨[], rfl⟩
  · exact ⟨[], rfl⟩
  · exact ⟨_, s.run.machine_move (.step now)⟩
  · exact ⟨[], rfl⟩

theorem Session.machine_opened (s : Session) (now : Nat) : (s.opened now).machine = s.machine := by
  unfold opened begin
  split <;> rfl

namespace Shared

theorem machine_drive (s : Shared) (now : Nat) (p : Point) :
    ∃ h, (s.drive now p).1.session.machine = s.session.machine.through h := by
  cases p with
  | opening => exact ⟨[], s.session.machine_opened now⟩
  | closing => exact s.session.machine_step now
  | looping =>
    rw [drive]
    split
    · exact ⟨[], rfl⟩
    · exact ⟨[], rfl⟩
    · exact s.session.machine_step now
  | _ => exact ⟨[], rfl⟩

end Shared

namespace Threads

theorem machine_turn (t : Threads) (a : Turn) :
    ∃ h, (t.turn a).shared.session.machine = t.shared.session.machine.through h := by
  rw [session_turn]
  split
  · rename_i u
    exact ⟨[.touch u], rfl⟩
  · exact t.shared.machine_drive _ _
  · exact ⟨[], rfl⟩

/-- Nothing takes the wish to stop back. -/
theorem stopping_after {t : Threads} (asked : t.shared.session.machine.stopping = true) (turns : List Turn) :
    (t.after turns).shared.session.machine.stopping = true := by
  refine after_induction (P := fun t => t.shared.session.machine.stopping = true) ?_ asked turns
  intro t a asked
  obtain ⟨h, machine⟩ := t.machine_turn a
  rw [machine]
  exact Machine.stopping_through asked h

theorem stopping_of_stop {t : Threads} {turns : List Turn} (stop : .touch .stop ∈ turns) :
    (t.after turns).shared.session.machine.stopping = true := by
  obtain ⟨before, rest, rfl⟩ := List.append_of_mem stop
  rw [after_append]
  exact stopping_after (t := (t.after before).turn (.touch .stop)) rfl rest

end Threads

/-! ## Machines that were asked to stop before -/

namespace Shared

/-- How many steps a thread takes at most until it leaves something to be joined, once its machine was asked to
stop. -/
def left (s : Shared) : Point → Nat
  | .looking => 8
  | .announcing => 7
  | .opening => 6
  | .looping => if s.session.run.phase = .ended .broken then 0 else 4 + s.session.run.phase.stepsLeft
  | .marking => 3
  | .clearing => 2
  | .closing => 1
  | .returned _ => 0

variable {s : Shared} {launched : Bool} {p : Point}

theorem left_le (s : Shared) (p : Point) : s.left p ≤ 8 := by
  cases p with
  | looping =>
    obtain ⟨-, -, three⟩ := s.session.run.phase.left_le
    rw [left]
    split <;> omega
  | _ => simp [left]

theorem left_drive (asked : s.session.machine.stopping = true) (fits : p.Fits s launched) (now : Nat) :
    (s.drive now p).1.left (s.drive now p).2 ≤ s.left p - 1 := by
  cases p with
  | looking =>
    rw [drive]
    cases s.finished <;> simp [left]
  | opening =>
    have begun : (s.session.opened now).run.phase = .polling := by
      rw [Session.opened_of_ready fits.stage]
      rfl
    simp [drive, left, begun, Phase.stepsLeft]
  | looping =>
    rcases drive_looping fits.stage now with ⟨broken, eq⟩ | ⟨⟨how, ended, whole⟩, eq⟩ | ⟨on, eq⟩ <;> rw [eq]
    · simp [left, broken]
    · simp [left, ended, whole]
    · obtain ⟨-, -, fewer⟩ := Run.asked_step (r := s.session.run) asked now
      have some : s.session.run.phase.stepsLeft ≠ 0 := by
        intro none
        obtain ⟨how, ended⟩ := Phase.ended_of_stepsLeft none
        exact on how ended
      simp only [left, on .broken, ↓reduceIte]
      split <;> omega
  | _ => simp [drive, left]

theorem result_of_left {q : Point} (none : s.left q = 0) : (s.result? q).isSome = true := by
  cases q with
  | looping =>
    rw [left] at none
    split at none
    · rename_i broken
      simp [result?, broken]
    · omega
  | returned r => rfl
  | _ => simp [left] at none

end Shared

namespace Threads

/-- Once its machine was asked to stop, every step of a running thread brings it nearer to its end, whatever others
do meanwhile. -/
theorem left_after {t : Threads} (fits : t.Fits) (asked : t.shared.session.machine.stopping = true) {p : Point}
    (point : t.place.point? = some p) {turns : List Turn} (others : ∀ a ∈ turns, a.isOwner = false) :
    ∃ q, (t.after turns).place.point? = some q ∧
      (t.after turns).shared.left q ≤ t.shared.left p - turns.countP Turn.isDriver := by
  induction turns generalizing t p with
  | nil => exact ⟨p, point, Nat.le_refl _⟩
  | cons a rest ih =>
    have step : ∃ q, (t.turn a).place.point? = some q ∧
        (t.turn a).shared.left q ≤ t.shared.left p - (if a.isDriver then 1 else 0) := by
      have other := others a List.mem_cons_self
      cases a with
      | touch u => exact ⟨p, point, Nat.le_refl _⟩
      | look => exact ⟨p, point, Nat.le_refl _⟩
      | driver now =>
        obtain ⟨s, l⟩ := t
        cases l with
        | starting q =>
          cases point
          exact ⟨_, rfl, Shared.left_drive asked fits now⟩
        | spawned g q =>
          cases point
          exact ⟨_, rfl, Shared.left_drive asked fits now⟩
        | _ => cases point
      | _ => cases other
    obtain ⟨q, pointThen, fewer⟩ := step
    have askedThen := stopping_after asked [a]
    obtain ⟨last, pointLast, fewest⟩ := ih (fits_turn fits a).1 askedThen pointThen fun b member =>
      others b (List.mem_cons_of_mem a member)
    refine ⟨last, pointLast, ?_⟩
    rw [List.countP_cons, Threads.after]
    omega

/-- A thread whose machine was asked to stop leaves something to be joined within eight steps. -/
theorem joinable_soon {t : Threads} (fits : t.Fits) (asked : t.shared.session.machine.stopping = true) {p : Point}
    (point : t.place.point? = some p) {turns : List Turn} (others : ∀ a ∈ turns, a.isOwner = false)
    (eight : 8 ≤ turns.countP Turn.isDriver) :
    ∃ q, (t.after turns).place.point? = some q ∧ ((t.after turns).shared.result? q).isSome = true := by
  obtain ⟨q, there, few⟩ := left_after fits asked point others
  have most := t.shared.left_le p
  exact ⟨q, there, Shared.result_of_left (by omega)⟩

end Threads

/-- What stands of a session whose machine was asked to stop before: only touches have come to it. -/
structure Session.Barred (m : Machine) (h : List Action) (s : Session) : Prop where
  machine : s.machine = m.through h
  cycles : s.run.cycles = 0
  phase : s.run.phase = .polling ∨ s.run.phase = .ended .stopped

section

variable {m : Machine} {h : List Action}

theorem Session.Barred.summary {s : Session} (barred : s.Barred m h) {how : Ending} (ended : s.run.phase = .ended how) :
    s.summary = .ok ⟨0, false⟩ := by
  have stopped : s.run.phase = .ended .stopped := by
    rcases barred.phase with polling | stopped
    · rw [ended] at polling
      cases polling
    · exact stopped
  rw [summary_of_ended stopped (by decide), barred.cycles]
  rfl

theorem Shared.barred_drive {s : Shared} {launched : Bool} {p : Point} (asked : m.stopping = true)
    (barred : s.session.Barred m h) (fits : p.Fits s launched) (now : Nat) :
    (s.drive now p).1.session.Barred m h := by
  obtain ⟨machine, cycles, phase⟩ := barred
  cases p with
  | opening =>
    rw [drive, Session.opened_of_ready fits.stage]
    exact ⟨machine, rfl, .inl rfl⟩
  | looping =>
    rcases drive_looping fits.stage now with ⟨-, eq⟩ | ⟨-, eq⟩ | ⟨on, eq⟩ <;> rw [eq]
    · exact ⟨machine, cycles, phase⟩
    · exact ⟨machine, cycles, phase⟩
    · have polling : s.session.run.phase = .polling := phase.resolve_right (on .stopped)
      have stopping : s.session.run.machine.stopping = true := by
        change s.session.run.machine = m.through h at machine
        rw [machine]
        exact Machine.stopping_through asked h
      have stops : s.session.run.step now = { s.session.run with phase := .ended .stopped } := by
        rw [(Run.step_polling polling now).2, Run.poll, if_pos stopping]
      rw [stops]
      exact ⟨machine, cycles, .inr rfl⟩
  | closing =>
    obtain ⟨flags, how, ended, whole⟩ := fits
    rw [drive, Session.step_of_ended flags.stage ended whole now]
    exact ⟨machine, cycles, phase⟩
  | _ => exact ⟨machine, cycles, phase⟩

/-- What a thread leaves that ran such a session. -/
theorem Shared.barred_result {s : Shared} {launched : Bool} {p : Point} (barred : s.session.Barred m h)
    (fits : p.Fits s launched) {result : Except Error Summary} (left : s.result? p = some result) :
    p = .returned result ∧ (result = .ok ⟨0, false⟩ ∨ result = .error .alreadyStopped) := by
  cases p with
  | returned r =>
    cases left
    refine ⟨rfl, ?_⟩
    cases result with
    | ok summary =>
      obtain ⟨past, told⟩ := fits
      obtain ⟨how, ended, -⟩ := past.whole
      rw [barred.summary ended] at told
      exact .inl told.symm
    | error e => exact .inr (congrArg Except.error fits.2.2)
  | looping =>
    have whole : s.session.run.phase ≠ .ended .broken := by
      rcases barred.phase with phase | phase <;> simp [phase]
    simp [result?, whole] at left
  | _ => cases left

namespace Threads

variable {t : Threads}

theorem barred_turn (asked : m.stopping = true) (barred : t.shared.session.Barred m h) (fits : t.Fits) (a : Turn) :
    (t.turn a).shared.session.Barred m (h ++ a.outside) := by
  have still : t.shared.session.Barred m (h ++ []) := by
    rw [List.append_nil]
    exact barred
  rw [session_turn]
  cases a with
  | touch u =>
    refine ⟨?_, barred.cycles, barred.phase⟩
    rw [Turn.outside, Machine.through_append, ← barred.machine]
    rfl
  | driver now =>
    cases there : t.place.point? with
    | none => exact still
    | some p =>
      obtain ⟨launched, pointed⟩ := fits.point there
      exact Shared.barred_drive asked still pointed now
  | _ => exact still

theorem barred_after (asked : m.stopping = true) (barred : t.shared.session.Barred m h) (fits : t.Fits)
    (turns : List Turn) : (t.after turns).shared.session.Barred m (h ++ turns.flatMap Turn.outside) := by
  induction turns generalizing t h with
  | nil =>
    rw [List.flatMap_nil, List.append_nil]
    exact barred
  | cons a rest ih =>
    rw [List.flatMap_cons, ← List.append_assoc]
    exact ih (barred_turn asked barred fits a) (fits_turn fits a).1

theorem barred_replies (asked : m.stopping = true) (barred : t.shared.session.Barred m h) (fits : t.Fits)
    (turns : List Turn) {r : Reply} (replied : r ∈ t.replies turns) {result : Except Error Summary}
    (is : r = .started result ∨ r = .joined result) : result = .ok ⟨0, false⟩ ∨ result = .error .alreadyStopped := by
  induction turns generalizing t h with
  | nil => cases replied
  | cons a rest ih =>
    rcases List.mem_append.mp replied with now | later
    · rcases reply_cases (Option.mem_toList.mp now) with ⟨-, rfl⟩ | ⟨-, given, place, rfl⟩ | ⟨-, -, -, rfl⟩ |
        ⟨-, p, -, rfl⟩ | ⟨-, p, given, place, left, rfl⟩
      · rcases is with is | is <;> cases is
      · obtain ⟨launched, pointed⟩ := fits.point (p := .returned given) (by rw [place]; rfl)
        rcases is with is | is <;> cases is
        exact (Shared.barred_result barred pointed rfl).2
      · rcases is with is | is <;> cases is
      · rcases is with is | is <;> cases is
      · obtain ⟨launched, pointed⟩ := fits.point (p := p) (by rw [place]; rfl)
        rcases is with is | is <;> cases is
        exact (Shared.barred_result barred pointed left).2
    · exact ih (barred_turn asked barred fits a) (fits_turn fits a).1 later

end Threads

end

/-! ## The life of a session -/

/-- What a session keeps to, whatever its threads do from its beginning on. -/
structure Threads.LivesOnce (t₀ : Threads) : Prop where
  /-- Everybody sees it off, then on, then off for good. -/
  seen : ∀ turns, ∃ before on after, (t₀.replies turns).filterMap Reply.seen? =
    List.replicate before false ++ List.replicate on true ++ List.replicate after false
  /-- While its run is on, it is said to be on; there is no thread before that; and it is off when all is over. -/
  told : ∀ turns,
    let t := t₀.after turns
    let ended := ∃ how, t.shared.session.run.phase = .ended how
    (t.shared.session.isRunning = true → t.shared.running = true ∨ ended) ∧
      (∀ grip point, t.place = .spawned grip point → t.shared.running = true ∨ ended) ∧
      (t.shared.session.stage = .over → t.shared.running = false)
  /-- One call to start or to spawn succeeds at most. -/
  once : ∀ turns, (t₀.replies turns).countP Reply.succeeds ≤ 1
  /-- When its run is over and its owner has it, each call to start or to spawn comes back refused and leaves all as
  it was, and so it stays: there are only refusals, and only touches change the machine. -/
  refused : ∀ turns,
    let t := t₀.after turns
    t.place = .holding → t.shared.session.stage = .over →
      (∀ now, let calls := [.start, .driver now, .owner]
        t.replies calls = [.started (.error .alreadyStopped)] ∧ t.after calls = t) ∧
      (t.replies [.spawn, .owner] = [.spawned (.error .alreadyStopped)] ∧
        (t.after [.spawn, .owner]).shared = t.shared) ∧
      ∀ more, (∀ r ∈ t.replies more, r.refuses = true) ∧
        (t.after more).shared = { t.shared with session := t.shared.session.acted (more.flatMap Turn.outside) }
  /-- Who asks it to stop has asked it for good. -/
  stopping : ∀ turns more, .touch .stop ∈ turns ∨ (t₀.after turns).shared.session.machine.stopping = true →
    (t₀.after (turns ++ more)).shared.session.machine.stopping = true

/-- What comes of a session whose machine was asked to stop before. -/
structure Threads.RunsNothing (m : Machine) (t₀ : Threads) : Prop where
  /-- Only touches change its machine. -/
  machine : ∀ turns, (t₀.after turns).shared.session.machine = m.through (turns.flatMap Turn.outside)
  /-- A run that it reports took no cycle and did not halt. -/
  summary : ∀ turns s, .started (.ok s) ∈ t₀.replies turns ∨ .joined (.ok s) ∈ t₀.replies turns → s = ⟨0, false⟩
  /-- A thread that runs it has its result after eight steps, whatever others do meanwhile. -/
  returns : ∀ turns point, (t₀.after turns).place.point? = some point → ∀ more, (∀ a ∈ more, a.isOwner = false) →
    8 ≤ more.countP Turn.isDriver → ∃ result, (t₀.after (turns ++ more)).place.point? = some (.returned result) ∧
      (result = .ok ⟨0, false⟩ ∨ result = .error .alreadyStopped)

namespace Threads

theorem start_refused {s : Shared} (past : s.Over) (now : Nat) :
    replies ⟨s, .holding⟩ [.start, .driver now, .owner] = [.started (.error .alreadyStopped)] ∧
      after ⟨s, .holding⟩ [.start, .driver now, .owner] = ⟨s, .holding⟩ := by
  simp [replies, after, reply, turn, call, advance, own, Shared.drive, past.flags.finished]

theorem spawn_refused {s : Shared} (past : s.Over) :
    replies ⟨s, .holding⟩ [.spawn, .owner] = [.spawned (.error .alreadyStopped)] ∧
      (after ⟨s, .holding⟩ [.spawn, .owner]).shared = s := by
  simp [replies, after, reply, turn, call, own, past.flags.finished]

theorem livesOnce {s : Shared} (fresh : s.Shows false false .ready) : LivesOnce ⟨s, .holding⟩ := by
  have fits : Fits ⟨s, .holding⟩ := .inl fresh
  refine ⟨?_, ?_, ?_, ?_, ?_⟩
  · intro turns
    obtain ⟨before, on, after, eq, -, -⟩ := observed fits turns
    exact ⟨before, on, after, eq⟩
  · intro turns t ended
    have fitsThere : t.Fits := fits_after fits turns
    refine ⟨?_, ?_, ?_⟩
    · intro begun
      by_cases past : ended
      · exact .inr past
      · exact .inl (running_of_on fitsThere begun fun how is => past ⟨how, is⟩)
    · intro grip point spawned
      exact running_of_spawned fitsThere spawned
    · intro past
      exact (over_of_stage fitsThere past).flags.running
  · intro turns
    exact Nat.le_trans (succeeds_le_credit fits turns) (credit_le_one _)
  · intro turns t holding stage
    have past : t.shared.Over := over_of_stage (fits_after fits turns) stage
    have idle : t.place.Idle := by
      rw [holding]
      exact .holding
    have there : t = ⟨t.shared, .holding⟩ := by rw [← holding]
    refine ⟨?_, ?_, fun more => idle_after past idle more⟩
    · intro now calls
      rw [there]
      exact start_refused past now
    · rw [there]
      exact spawn_refused past
  · intro turns more either
    rw [after_append]
    rcases either with stop | asked
    · exact stopping_after (stopping_of_stop stop) more
    · exact stopping_after asked more

theorem runsNothing {m : Machine} {s : Shared} (asked : m.stopping = true) (fresh : s.Shows false false .ready)
    (barred : s.session.Barred m []) : RunsNothing m ⟨s, .holding⟩ := by
  have fits : Fits ⟨s, .holding⟩ := .inl fresh
  refine ⟨?_, ?_, ?_⟩
  · intro turns
    exact (barred_after asked barred fits turns).machine
  · intro turns summary replied
    have result : (Except.ok summary : Except Error Summary) = .ok ⟨0, false⟩ ∨
        (Except.ok summary : Except Error Summary) = .error .alreadyStopped := by
      rcases replied with started | joined
      · exact barred_replies asked barred fits turns started (.inl rfl)
      · exact barred_replies asked barred fits turns joined (.inr rfl)
    rcases result with same | other
    · exact Except.ok.inj same
    · cases other
  · intro turns point there more others eight
    have fitsThere := fits_after fits turns
    have barredThere := barred_after asked barred fits turns
    have askedThere : (after ⟨s, .holding⟩ turns).shared.session.machine.stopping = true := by
      rw [barredThere.machine]
      exact Machine.stopping_through asked _
    obtain ⟨q, last, left⟩ := joinable_soon fitsThere askedThere there others eight
    obtain ⟨result, given⟩ := Option.isSome_iff_exists.mp left
    obtain ⟨launched, pointed⟩ := (fits_after fitsThere more).point last
    obtain ⟨rfl, which⟩ := Shared.barred_result (barred_after asked barredThere fitsThere more) pointed given
    rw [after_append]
    exact ⟨result, last, which⟩

/-- A session whose clock ticks lives once: it is seen off, then on, then off for good; it is on while its run is;
one call to start or to spawn succeeds at most, and when its run is over all others are refused and leave it as it
is; and the wish to stop stays. Whenever its machine was asked to stop, any later session for that machine does
nothing to it and soon comes back with no cycle. -/
theorem session_lives_once (clock : UInt32) (ticks : clock ≠ 0) (log : Array Event) (m : Machine) :
    ∃ t₀, Threads.new m clock log = .ok t₀ ∧ t₀.LivesOnce ∧
      ∀ turns, let used := (t₀.after turns).shared.session.machine
        used.stopping = true → ∀ laterClock laterLog, laterClock ≠ 0 →
          ∃ t₁, Threads.new used laterClock laterLog = .ok t₁ ∧ t₁.RunsNothing used := by
  have fresh (m : Machine) (clock : UInt32) (log : Array Event) :
      Shared.Shows ⟨⟨clock, .ready, Run.start m clock 0 log⟩, false, false⟩ false false .ready := ⟨rfl, rfl, rfl⟩
  refine ⟨_, new_eq m ticks log, livesOnce (fresh m clock log), ?_⟩
  intro turns used asked laterClock laterLog laterTicks
  exact ⟨_, new_eq used laterTicks laterLog, runsNothing asked (fresh used laterClock laterLog) ⟨rfl, rfl, .inl rfl⟩⟩

/-- A session is spawned, seen meanwhile, asked to stop while its run is on, and joined. -/
def shortLife : List Turn :=
  [.look, .spawn, .owner, .owner, .owner, .look, .owner] ++ List.replicate 5 (.driver 0) ++
  [.touch .stop, .look] ++ List.replicate 7 (.driver 0) ++ [.look, .join, .start, .look]

theorem shortLife_once :
    ∃ t₀, Threads.new (Machine.fresh .default []) 500 #[] = .ok t₀ ∧ t₀.LivesOnce ∧
      (t₀.replies shortLife).filterMap Reply.seen? = [false, true, true, false, false] ∧
      (t₀.replies shortLife).countP Reply.succeeds = 1 ∧
      ∃ t₁, Threads.new (t₀.after shortLife).shared.session.machine 60 #[] = .ok t₁ ∧
        t₁.RunsNothing (t₀.after shortLife).shared.session.machine := by
  obtain ⟨t₀, made, lives, later⟩ := session_lives_once 500 (by decide) #[] (Machine.fresh .default [])
  rw [new_eq _ (by decide)] at made
  cases made
  refine ⟨_, new_eq _ (by decide) _, lives, by decide +kernel, by decide +kernel, ?_⟩
  exact later shortLife (stopping_of_stop (by simp [shortLife])) 60 #[] (by decide)

end Threads
end Chip8
