import Chip8.Proofs.Diagnostics
import Chip8.Proofs.Sessions

/-!
# What a run leaves in the log

The log of a session holds what was there before, the start of its run, what the cycles have reported, the registers if
the machine halted, and once the run is over its end (`Session.Records`). Every turn of every thread keeps that
(`Threads.records_turn`), so the lines that a start leaves behind tell what was run, and a start that is refused
leaves none (`Threads.diagnostics_tell_the_truth`).
-/

namespace Chip8

namespace Run

/-- What a run reports that was given up. -/
def dump (r : Run) : List Event :=
  if r.phase = .ended .halted then [.aborted, .registers r.machine.registers] else []

theorem dump_of_other {r : Run} (other : r.phase ≠ .ended .halted) : r.dump = [] := if_neg other

theorem registers_touch (m : Machine) (t : Touch) : (m.touch t).registers = m.registers := by
  rw [Machine.touch_eq]
  rfl

/-- The log of a run that is on grows by what a cycle reports, and by the registers if the run is given up. -/
theorem log_step {r : Run} (on : ∀ how, r.phase ≠ .ended how) (now : Nat) :
    (r.step now).log.toList =
      r.log.toList ++ r.machine.notes (r.does (.step now)) ++ (r.step now).dump := by
  cases phase : r.phase with
  | ended how => exact absurd phase (on how)
  | polling =>
    obtain ⟨none, eq⟩ := step_polling phase now
    rw [none, eq, poll]
    split
    · simp [dump, Machine.notes]
    · cases due : r.cycleDue now <;> simp [dump, Machine.notes]
  | ticking =>
    obtain ⟨does, eq⟩ := step_ticking phase now
    have silent : r.machine.notes (r.does (.step now)) = [] := by
      apply Machine.notes_outside
      rw [does]
      split <;> simp
    rw [silent, eq, tick]
    split <;> simp [dump]
  | cycling =>
    have takes : r.step now = r.cycle := by simp [step, phase]
    have goes (other : r.machine.cycle.outcome ≠ .waiting) :
        r.machine.notes (r.does (.step now)) = r.machine.cycle.note.toList := by
      rw [ne_eq, Machine.outcome_eq_waiting_iff] at other
      simp [does, phase, other, Machine.notes_singleton, Machine.noted]
    rw [takes]
    rcases r.cycle_cases with ⟨out, eq⟩ | ⟨out, eq⟩ | ⟨out, eq⟩ | ⟨out, eq⟩
    · rw [eq, goes (by simp [out])]
      simp [cycled, dump]
    · rw [eq, goes (by simp [out])]
      simp [cycled, dump]
    · rw [eq]
      simp [does, phase, (Machine.outcome_eq_waiting_iff _).mp out, Machine.notes, dump]
    · rw [eq, goes (by simp [out])]
      simp [cycled, dump]

/-- All words of a run could be counted, unless it broke off. -/
theorem Account.countable {m : Machine} {h : List Action} {r : Run} (account : r.Account m h)
    (whole : r.phase ≠ .ended .broken) : ∀ f ∈ m.trace h, f.outcome ≠ .overflow := by
  have fine (o : Outcome) (is : o = .done ∨ o = .halted) : o ≠ .overflow := by
    rcases is with rfl | rfl <;> decide
  intro f member
  -- in a run that was given up only the last word halted, and its row had room
  by_cases halted : r.phase = .ended .halted
  · obtain ⟨earlier, last, trace, done, out⟩ := (account.halts halted).trace
    rw [trace] at member
    rcases List.mem_append.mp member with old | new
    · exact fine _ (.inl (done f old))
    · rw [List.mem_singleton.mp new]
      exact fine _ (.inr out)
  · exact fine _ (.inl (account.all_done halted whole f member))

end Run

namespace Session

/-- What a step does to the machine. -/
def does (s : Session) (now : Nat) : List Action := if s.stage = .running then s.run.does (.step now) else []

/-- What a session has reported of its run by now, when its cycles have reported some events. -/
def Tells (s : Session) (notes told : List Event) : Prop :=
  match s.stage with
  | .ready => told = []
  | .running => told = .started s.clock :: notes ++ s.run.dump
  | .over => ∃ ms, told = .started s.clock :: notes ++ s.run.dump ++ [.finished ms s.run.cycles]

/-- What a session has to show for a history of its machine, in a log that held some events before. -/
structure Records (m : Machine) (clock : UInt32) (log : List Event) (h : List Action) (s : Session) : Prop where
  account : s.run.Account m h
  clock : s.clock = clock
  fresh : s.stage = .ready → ∀ a ∈ h, a ≠ .cycle
  told : ∃ told, s.log = log ++ told ∧ s.Tells (m.notes h) told

section
variable {m : Machine} {clock : UInt32} {log : List Event} {h : List Action} {s : Session}

theorem records_new (m : Machine) (clock : UInt32) (log : Array Event) :
    Records m clock log.toList [] ⟨clock, .ready, Run.start m clock 0 log⟩ where
  account := Run.account_spaced m (cyclePeriod clock) 0 log
  clock := rfl
  fresh := fun _ a member => nomatch member
  told := ⟨[], by simp [Session.log, Run.start], rfl⟩

theorem Records.still (records : s.Records m clock log h) : s.Records m clock log (h ++ []) := by
  rwa [List.append_nil]

theorem Records.touch (records : s.Records m clock log h) (t : Touch) :
    (s.mapMachine (·.touch t)).Records m clock log (h ++ [.touch t]) := by
  obtain ⟨told, logged, tells⟩ := records.told
  have outside : ∀ a ∈ [Action.touch t], a ≠ .cycle := by simp
  refine ⟨records.account.touch t, records.clock, ?_, told, logged, ?_⟩
  · intro ready a member
    rcases List.mem_append.mp member with old | new
    · exact records.fresh ready a old
    · exact outside a new
  · have dump : (s.run.mapMachine (·.touch t)).dump = s.run.dump := by
      simp [Run.dump, Run.mapMachine, Run.registers_touch]
    rw [Machine.notes_append, Machine.notes_outside _ outside, List.append_nil]
    simp only [Tells, mapMachine, dump]
    exact tells

theorem Records.opened (records : s.Records m clock log h) (ready : s.stage = .ready) (now : Nat) :
    (s.opened now).Records m clock log h := by
  obtain ⟨told, logged, tells⟩ := records.told
  have fresh := records.fresh ready
  have untraced : m.trace h = [] := Machine.trace_outside m fresh
  simp only [Tells, ready] at tells
  rw [opened_of_ready ready]
  constructor
  case account =>
    refine ⟨records.account.machine, by rw [untraced]; rfl, ?_⟩
    show ∀ f ∈ m.trace h, f.outcome = .done
    rw [untraced]
    exact fun f member => nomatch member
  case clock => exact records.clock
  case fresh => exact fun running => nomatch running
  case told =>
    refine ⟨[.started s.clock], ?_, ?_⟩
    · rw [tells, List.append_nil] at logged
      rw [← logged]
      simp [Session.log, Run.start]
    · simp [Tells, Machine.notes_outside m fresh, Run.dump, Run.start]

theorem Records.step (records : s.Records m clock log h) (now : Nat) :
    (s.step now).Records m clock log (h ++ s.does now) := by
  obtain ⟨told, logged, tells⟩ := records.told
  rcases s.step_cases now with ⟨running, on, eq⟩ | ⟨running, ⟨how, ended, whole⟩, eq⟩ | ⟨still, eq⟩
  · have grown := Run.log_step on now
    simp only [Tells, running, Run.dump_of_other (on .halted), List.append_nil] at tells
    rw [does, if_pos running, eq]
    constructor
    case account => exact records.account.step now
    case clock => exact records.clock
    case fresh =>
      intro ready
      rw [running] at ready
      cases ready
    case told =>
      refine ⟨.started s.clock :: m.notes (h ++ s.run.does (.step now)) ++ (s.run.step now).dump, ?_, ?_⟩
      · rw [tells] at logged
        change s.run.log.toList = _ at logged
        change (s.run.step now).log.toList = _
        rw [grown, logged, Machine.notes_append, ← records.account.machine]
        simp
      · simp only [Tells, running]
  · have nothing : s.does now = [] := by rw [does, if_pos running, (Run.step_ended ended now).1]
    simp only [Tells, running] at tells
    rw [nothing, List.append_nil, eq]
    refine ⟨⟨records.account.machine, records.account.cycles, records.account.outcomes⟩, records.clock,
      (fun ready => nomatch ready), told ++ [.finished (milliseconds s.run.began now) s.run.cycles], ?_, ?_⟩
    · rw [← List.append_assoc, ← logged]
      simp [Session.log, report]
    · exact ⟨_, by rw [tells]; rfl⟩
  · have nothing : s.does now = [] := by
      rw [does]
      split
      · rename_i running
        rw [(Run.step_ended (still running) now).1]
      · rfl
    rw [nothing, List.append_nil, eq]
    exact records

/-- What the log says when all is over. -/
theorem Records.lines (records : s.Records m clock log h) {earlier : List UInt16} (counts : m.Counts earlier)
    (past : s.stage = .over) {how : Ending} (ended : s.run.phase = .ended how) (whole : how ≠ .broken) :
    ∃ ms : Nat, s.log.map Event.line =
      log.map Event.line ++ ["INFO Starting VM at " ++ toString clock.toNat ++ " Hz"] ++ tale earlier (m.executed h) ++
      (if how = .halted then
        ["ERROR Abort process because of 5 empty instructions in a row", "DEBUG " ++ s.machine.registers.text]
      else []) ++
      ["INFO Program ran " ++ toString ms ++ " milliseconds, executed " ++ toString s.run.cycles ++ " cycles"] := by
  obtain ⟨told, logged, tells⟩ := records.told
  have countable : ∀ f ∈ m.executed h, f.outcome ≠ .overflow := by
    intro f member
    exact records.account.countable (by simp [ended, whole]) f (List.mem_filter.mp member).1
  have dumped : s.run.dump.map Event.line =
      if how = .halted then
        ["ERROR Abort process because of 5 empty instructions in a row", "DEBUG " ++ s.machine.registers.text]
      else [] := by
    by_cases halted : how = .halted
    · simp [Run.dump, ended, halted, Event.line_aborted, Event.line_registers, Session.machine]
    · simp [Run.dump, ended, halted]
  simp only [Tells, past] at tells
  obtain ⟨ms, rfl⟩ := tells
  refine ⟨ms, ?_⟩
  rw [logged, ← Machine.lines_eq_tale counts h countable, ← dumped, ← records.clock, ← Event.line_started,
    ← Event.line_finished]
  simp

end

end Session

namespace Shared

variable {s : Shared} {m : Machine} {clock : UInt32} {log : List Event} {h : List Action} {launched : Bool} {p : Point}

/-- What the running thread does to the machine at a point. -/
def does (s : Shared) (now : Nat) : Point → List Action
  | .looping | .closing => s.session.does now
  | _ => []

theorem records_drive (records : s.session.Records m clock log h) (fits : p.Fits s launched) (now : Nat) :
    (s.drive now p).1.session.Records m clock log (h ++ s.does now p) := by
  cases p with
  | opening => exact (records.opened fits.stage now).still
  | closing => exact records.step now
  | looping =>
    have idle {how : Ending} (ended : s.session.run.phase = .ended how) : s.does now .looping = [] := by
      rw [does, Session.does, (Run.step_ended ended now).1]
      split <;> rfl
    rcases drive_looping fits.stage now with ⟨broken, eq⟩ | ⟨⟨how, ended, -⟩, eq⟩ | ⟨on, eq⟩
    · rw [eq, idle broken]
      exact records.still
    · rw [eq, idle ended]
      exact records.still
    · rw [eq]
      have stepped := records.step now
      rw [Session.step_of_on fits.stage on] at stepped
      exact stepped
  | _ => exact records.still

end Shared

namespace Threads

/-- What a turn does to the machine. -/
def does (t : Threads) : Turn → List Action
  | .touch u => [.touch u]
  | .driver now => (t.place.point?.map (t.shared.does now)).getD []
  | _ => []

def history (t : Threads) : List Turn → List Action
  | [] => []
  | a :: rest => t.does a ++ (t.turn a).history rest

section
variable {m : Machine} {clock : UInt32} {log : List Event} {h : List Action} {t : Threads}

theorem records_turn (records : t.shared.session.Records m clock log h) (fits : t.Fits) (a : Turn) :
    (t.turn a).shared.session.Records m clock log (h ++ t.does a) := by
  rw [session_turn]
  cases a with
  | touch u => exact records.touch u
  | driver now =>
    cases there : t.place.point? with
    | none =>
      rw [does, there]
      exact records.still
    | some p =>
      obtain ⟨launched, pointed⟩ := fits.point there
      rw [does, there]
      exact Shared.records_drive records pointed now
  | _ => exact records.still

theorem records_after (records : t.shared.session.Records m clock log h) (fits : t.Fits) (turns : List Turn) :
    (t.after turns).shared.session.Records m clock log (h ++ t.history turns) := by
  induction turns generalizing t h with
  | nil => exact records.still
  | cons a rest ih =>
    rw [history, ← List.append_assoc]
    exact ih (records_turn records fits a) (fits_turn fits a).1

end

/-! ## Refusals -/

/-- The owner has called for a start, and it was not refused. -/
def Started (t : Threads) : Prop :=
  ∃ p, t.place = .starting p ∧ (p = .looking → t.shared.finished = false) ∧ ∀ e, p ≠ .returned (.error e)

theorem Started.turn {t : Threads} (started : t.Started) (fits : t.Fits) {a : Turn} (other : a.isOwner = false) :
    (t.turn a).Started := by
  obtain ⟨s, l⟩ := t
  obtain ⟨p, rfl, unrun, accepted⟩ := started
  cases a with
  | touch u => exact ⟨p, rfl, unrun, accepted⟩
  | look => exact ⟨p, rfl, unrun, accepted⟩
  | driver now =>
    -- only the first step of a start refuses it, when it finds that a run has finished
    refine ⟨_, rfl, ?_⟩
    change p.Fits s false at fits
    cases p with
    | looking =>
      have unfinished : s.finished = false := unrun rfl
      have announces : (s.drive now .looking).2 = .announcing := by simp [Shared.drive, unfinished]
      rw [announces]
      simp
    | looping =>
      rcases Shared.drive_looping fits.stage now with ⟨-, eq⟩ | ⟨-, eq⟩ | ⟨-, eq⟩ <;> simp [eq]
    | closing =>
      obtain ⟨flags, how, ended, whole⟩ := fits
      have endedThen : (s.session.step now).run.phase = .ended how := by
        rw [Session.step_of_ended flags.stage ended whole now]
        exact ended
      simp [Shared.drive, Session.summary_of_ended endedThen whole]
    | returned r => exact ⟨by simp [Shared.drive], accepted⟩
    | _ => simp [Shared.drive]
  | _ => cases other

theorem Started.after {t : Threads} (started : t.Started) (fits : t.Fits) {turns : List Turn}
    (others : ∀ a ∈ turns, a.isOwner = false) : (t.after turns).Started := by
  induction turns generalizing t with
  | nil => exact started
  | cons a rest ih =>
    exact ih (started.turn fits (others a List.mem_cons_self)) (fits_turn fits a).1 fun b member =>
      others b (List.mem_cons_of_mem a member)

theorem over_of_returned {t : Threads} (fits : t.Fits) {turns : List Turn} {summary : Summary}
    (returned : (t.after turns).place = .starting (.returned (.ok summary))) : (t.after turns).shared.Over := by
  have fitsThen := fits_after fits turns
  unfold Fits at fitsThen
  rw [returned] at fitsThen
  exact fitsThen.1

/-- Behind a run, a further start is refused. -/
theorem start_again {t : Threads} {summary : Summary} (returned : t.place = .starting (.returned (.ok summary)))
    (past : t.shared.Over) (now : Nat) :
    (t.after [.owner]).place = .holding ∧
      (t.after [.owner, .start, .driver now]).place = .starting (.returned (.error .alreadyStopped)) := by
  simp [after, turn, own, call, advance, Shared.drive, returned, past.flags.finished]

theorem after_cons (t : Threads) (a : Turn) (rest : List Turn) : t.after (a :: rest) = (t.turn a).after rest := rfl

theorem log_acted (s : Session) (h : List Action) : (s.acted h).log = s.log := rfl

/-- A start comes back refused only if there was a run before, and then nothing has come to the log since it was
called. -/
theorem log_refused {t : Threads} (fits : t.Fits) (holding : t.place = .holding) {call : List Turn}
    (others : ∀ a ∈ call, a.isOwner = false) {e : Error}
    (refused : (t.after (.start :: call)).place = .starting (.returned (.error e))) :
    e = .alreadyStopped ∧ (t.after (.start :: call)).shared.session.log = t.shared.session.log := by
  have fitsThen : (t.after (.start :: call)).Fits := fits_after fits _
  have isRefusal : e = .alreadyStopped := by
    unfold Fits at fitsThen
    rw [refused] at fitsThen
    exact fitsThen.2.2
  refine ⟨isRefusal, ?_⟩
  have either : t.shared.Shows false false .ready ∨ t.shared.Over := by
    unfold Fits at fits
    rwa [holding] at fits
  rcases either with fresh | past
  · have called : t.turn .start = ⟨t.shared, .starting .looking⟩ := by simp [turn, holding, Threads.call]
    have started : (t.turn .start).Started := by
      rw [called]
      exact ⟨.looking, rfl, fun _ => fresh.finished, by simp⟩
    obtain ⟨p, place, -, accepted⟩ := started.after (fits_turn fits .start).1 others
    change (t.after (.start :: call)).place = _ at place
    rw [place] at refused
    cases refused
    exact absurd rfl (accepted e)
  · have idle : t.place.Idle := by
      rw [holding]
      exact .holding
    rw [(idle_after past idle (.start :: call)).2]
    exact log_acted _ _

/-- For a machine with any history: the cycles of what happens to it next, as long as there are no 256 empty words in a
row, report a line for each empty word, with its address and the length of its row, a line for each unknown word, and
nothing else. When it is run, by whatever threads, a start that comes back leaves the start line, the lines of its
cycles, the abort and the dump of the machine as it is then if it halted and only then, and the end line with the cycles
of the summary. A start that comes back refused was called after a run, and leaves nothing. -/
theorem diagnostics_tell_the_truth (config : Config) (random : List UInt8) (g : List Action) :
    let start := Machine.fresh config random
    let m := start.through g
    (∀ k, ¬List.replicate 256 0 <:+: start.words (g ++ k) →
      (m.notes k).map Event.line = tale (start.words g) (m.executed k)) ∧
    ∀ (clock : UInt32) (log : Array Event), clock ≠ 0 → ∃ t₀, Threads.new m clock log = .ok t₀ ∧ ∀ turns,
      let t := t₀.after turns
      let h := t₀.history turns
      let s := t.shared.session
      s.machine = m.through h ∧
      (∀ summary, t.place.point? = some (.returned (.ok summary)) →
        summary.cycles = h.countP Action.isCycle ∧ ∃ ms : Nat, s.log.map Event.line =
          log.toList.map Event.line ++ ["INFO Starting VM at " ++ toString clock.toNat ++ " Hz"] ++
          tale (start.words g) (m.executed h) ++
          (if summary.halted then
            ["ERROR Abort process because of 5 empty instructions in a row", "DEBUG " ++ s.machine.registers.text]
          else []) ++
          ["INFO Program ran " ++ toString ms ++ " milliseconds, executed " ++ toString summary.cycles ++ " cycles"]) ∧
      ∀ before call e, turns = before ++ .start :: call → (t₀.after before).place = .holding →
        (∀ a ∈ call, a.isOwner = false) → t.place = .starting (.returned (.error e)) →
          e = .alreadyStopped ∧ s.log = (t₀.after before).shared.session.log := by
  intro start m
  have counts : m.Counts (start.words g) := Machine.emptyRow_through config random g
  refine ⟨fun k short => ?_, fun clock log ticks => ⟨_, new_eq m ticks log, fun turns => ?_⟩⟩
  · rw [Machine.words_append] at short
    exact Machine.lines_eq_tale counts k (Machine.countable_of_short counts short)
  · intro t h s
    have fits₀ : Fits ⟨⟨⟨clock, .ready, Run.start m clock 0 log⟩, false, false⟩, .holding⟩ := .inl ⟨rfl, rfl, rfl⟩
    have fits : t.Fits := fits_after fits₀ turns
    have records : s.Records m clock log.toList h := records_after (Session.records_new m clock log) fits₀ turns
    refine ⟨records.account.machine, fun summary returned => ?_, ?_⟩
    · obtain ⟨launched, past, told⟩ := fits.point returned
      obtain ⟨how, ended, whole⟩ := past.whole
      rw [Session.summary_of_ended ended whole] at told
      cases told
      have counted : s.run.cycles = h.countP Action.isCycle := by
        rw [records.account.cycles, Machine.length_trace]
      obtain ⟨ms, lines⟩ := records.lines counts past.flags.stage ended whole
      refine ⟨counted, ms, ?_⟩
      simpa using lines
    · rintro before call e rfl holding others refused
      simp only [t, s, after_append] at refused ⊢
      exact log_refused (fits_after fits₀ before) holding others refused

/-- An unknown word, then two empty ones. -/
def carried : List Action := [.load [0x81, 0x2F], .cycle, .cycle, .cycle]

/-- The threads of a session for the machine that this leaves. -/
def carriedOn : Threads :=
  ⟨⟨⟨500, .ready, Run.start ((Machine.fresh .default []).through carried) 500 0 #[]⟩, false, false⟩, .holding⟩

/-- A run that goes on with empty words until it halts. -/
def halting : List Turn := (List.range 20).map fun k => .driver (2000000 * k)

def Point.summary? : Point → Option Summary
  | .returned (.ok summary) => some summary
  | _ => none

theorem started_halting : (carriedOn.after (.start :: halting)).place = .starting (.returned (.ok ⟨3, true⟩)) := by
  have started : (carriedOn.turn .start).Started := ⟨.looking, rfl, fun _ => rfl, by simp⟩
  have fits : (carriedOn.turn .start).Fits := .inl ⟨rfl, rfl, rfl⟩
  have others : ∀ a ∈ halting, a.isOwner = false := by simp [halting, Turn.isOwner]
  -- points are not compared, so the place comes from the start and only the summary is computed
  obtain ⟨p, place, -, -⟩ := started.after fits others
  rw [← after_cons] at place
  have returned : (carriedOn.after (.start :: halting)).place.point?.bind Point.summary? = some ⟨3, true⟩ := by
    decide +kernel
  rw [place, Place.point?, Option.bind_some, Point.summary?.eq_def] at returned
  rw [place]
  split at returned
  · rw [Option.some.inj returned]
  · cases returned

theorem diagnostics_of_carried :
    let m := (Machine.fresh .default []).through carried
    (m.notes [.cycle, .tick, .load [0xF1, 0x01], .cycle]).map Event.line =
      ["DEBUG Empty instruction at 0x206 (3 in a row)", "WARN Unknown instruction F101 at 0x200, skipping"] ∧
    ∃ t₀, Threads.new m 500 #[] = .ok t₀ ∧
      let s := (t₀.after (.start :: halting)).shared.session
      (∃ ms : Nat, s.log.map Event.line = ["INFO Starting VM at 500 Hz",
        "DEBUG Empty instruction at 0x206 (3 in a row)", "DEBUG Empty instruction at 0x208 (4 in a row)",
        "DEBUG Empty instruction at 0x20A (5 in a row)",
        "ERROR Abort process because of 5 empty instructions in a row", "DEBUG " ++ s.machine.registers.text,
        "INFO Program ran " ++ toString ms ++ " milliseconds, executed " ++ toString 3 ++ " cycles"]) ∧
      (t₀.after (.start :: halting ++ [.owner, .start, .driver 0])).shared.session.log =
        (t₀.after (.start :: halting ++ [.owner])).shared.session.log := by
  intro m
  obtain ⟨cycles, runs⟩ := diagnostics_tell_the_truth .default [] carried
  obtain ⟨t₀, made, law⟩ := runs 500 #[] (by decide)
  have same : carriedOn = t₀ := by
    rw [new_eq _ (by decide)] at made
    exact Except.ok.inj made
  have returned := started_halting
  have past := over_of_returned (t := carriedOn) (.inl ⟨rfl, rfl, rfl⟩) started_halting
  rw [same] at returned past
  refine ⟨(cycles _ (by decide +kernel)).trans (by decide +kernel), t₀, made, ?_, ?_⟩
  · obtain ⟨-, told, -⟩ := law (.start :: halting)
    obtain ⟨-, ms, lines⟩ := told ⟨3, true⟩ (congrArg Place.point? returned)
    have told : tale ((Machine.fresh .default []).words carried) (m.executed (t₀.history (.start :: halting))) =
        ["DEBUG Empty instruction at 0x206 (3 in a row)", "DEBUG Empty instruction at 0x208 (4 in a row)",
          "DEBUG Empty instruction at 0x20A (5 in a row)"] := by
      rw [← same]
      decide +kernel
    have start : "INFO Starting VM at " ++ toString (500 : UInt32).toNat ++ " Hz" = "INFO Starting VM at 500 Hz" := by
      decide +kernel
    refine ⟨ms, lines.trans ?_⟩
    rw [told, start]
    rfl
  · obtain ⟨-, -, refuses⟩ := law (.start :: halting ++ [.owner, .start, .driver 0])
    obtain ⟨holding, refused⟩ := start_again returned past 0
    rw [← after_append] at holding refused
    refine (refuses (.start :: halting ++ [.owner]) [.driver 0] .alreadyStopped ?_ holding ?_ refused).2
    · simp
    · simp [Turn.isOwner]

end Threads
end Chip8
