import Chip8.Proofs.Sessions
import Chip8.Window.Paced

/-!
# The end of the tone

The windowed front end with all that goes on at once: the machine, the player of the tone, and the handling of what
happens to the window, at the end of which the front end is left (`Window.Process`). In every order of their steps the
player stays until the run is over, then it falls silent and is gone (`Process.tone_ends_with_run`). To leave is to
wait for both, and a paced shutdown is one order of the steps (`Process.exists_turns_of_shutdown`).
-/

namespace Chip8.Tone.Player

/-- A player leaves only when the run has ended, and it is silent when it is gone. -/
structure Steady (p : Player) (ended : Prop) : Prop where
  stays : p.stage = .closing ∨ p.stage = .gone → ended
  silent : p.stage = .gone → p.playing = false

theorem step_of_gone {p : Player} (gone : p.stage = .gone) (running sounding : Bool) : p.step running sounding = p := by
  simp [step, gone]

theorem Steady.step {p : Player} {ended : Prop} (steady : p.Steady ended) {running : Bool}
    (ends : running = false → ended) (sounding : Bool) : (p.step running sounding).Steady ended := by
  obtain ⟨stage, playing⟩ := p
  cases stage with
  | checking =>
    cases running with
    | true => exact ⟨by simp [Player.step], nofun⟩
    | false => exact ⟨fun _ => ends rfl, nofun⟩
  | listening => exact ⟨by simp [Player.step], nofun⟩
  | heard sounded => exact ⟨by simp [Player.step], nofun⟩
  | closing => exact ⟨fun _ => steady.stays (.inl rfl), fun _ => rfl⟩
  | gone => exact steady

/-- The steps that a player still takes once the run is over. -/
def left (p : Player) : Nat :=
  match p.stage with
  | .gone => 0
  | .closing => 1
  | .checking => 2
  | .heard _ => 3
  | .listening => 4

theorem left_le (p : Player) : p.left ≤ 4 := by
  unfold left
  split <;> decide

theorem left_step (p : Player) (sounding : Bool) : (p.step false sounding).left ≤ p.left - 1 := by
  obtain ⟨stage, playing⟩ := p
  cases stage <;> simp [step, left]

theorem gone_of_left {p : Player} (none : p.left = 0) : p.stage = .gone := by
  obtain ⟨stage, playing⟩ := p
  cases stage with
  | gone => rfl
  | _ => cases none

end Chip8.Tone.Player

namespace Chip8.Window

/-- How far a front end has been left. -/
inductive Leaving
  /-- It is in use. -/
  | notYet
  /-- The machine was asked to stop, and the end of its run is awaited. -/
  | awaitingRun
  /-- The session was taken down, and the end of the player is awaited. -/
  | awaitingPlayer
  | done
  | failed (failure : Failure)
deriving DecidableEq

/-- A front end, whose machine and player go on by themselves, and how far it has been left. -/
structure Process where
  front : Front
  leaving : Leaving

/-- One thing that goes on: a step of the machine or of the player, something that happens to the window, or a step
on the way out. -/
inductive Turn
  | machine (now : Nat)
  | player
  | happening (devices : Devices) (h : Happening)
  | leave

def Turn.isPlayer : Turn → Bool
  | .player => true
  | _ => false

namespace Process

/-- What is done to leave. The end of the run is awaited before that of the player, and a run that broke off ends it. -/
def leave (p : Process) : Process :=
  match p.leaving with
  | .notYet => ⟨{ p.front with session := p.front.session.stop }, .awaitingRun⟩
  | .awaitingRun =>
    if p.front.session.isFinished then
      match p.front.detach with
      | .ok f => ⟨f, .awaitingPlayer⟩
      | .error failure => { p with leaving := .failed failure }
    else p
  | .awaitingPlayer => if p.front.player.stage = .gone then { p with leaving := .done } else p
  | .done | .failed _ => p

def turn (p : Process) : Turn → Process
  | .machine now => { p with front := { p.front with session := p.front.session.step now } }
  | .player => { p with front := p.front.stepPlayer }
  | .happening devices h => { p with front := p.front.handle devices h }
  | .leave => p.leave

/-- The front end after turns, one after another. -/
def after (p : Process) (turns : List Turn) : Process := turns.foldl turn p

theorem after_append (p : Process) (turns more : List Turn) : p.after (turns ++ more) = (p.after turns).after more :=
  List.foldl_append ..

end Process

/-! ## What each turn leaves alone -/

/-- Two front ends with the same player whose sessions are equally far. -/
structure Front.Alike (f g : Front) : Prop where
  player : g.player = f.player
  stage : g.session.stage = f.session.stage
  phase : g.session.run.phase = f.session.run.phase

namespace Front

theorem Alike.refl (f : Front) : f.Alike f := ⟨rfl, rfl, rfl⟩

theorem Alike.begun {f g : Front} (alike : f.Alike g) (begun : f.session.Begun) : g.session.Begun := by
  simpa only [Session.Begun, alike.stage, alike.phase] using begun

theorem Alike.steady {f g : Front} (alike : f.Alike g) (steady : f.player.Steady (f.session.stage = .over)) :
    g.player.Steady (g.session.stage = .over) := by
  rwa [alike.player, alike.stage]

theorem respond_alike (f : Front) (devices : Devices) (h : Happening) :
    f.Alike (f.respond devices h).1 ∧ (f.respond devices h).1.attached = f.attached := by
  cases h with
  | resumed =>
    show f.Alike (f.resume devices).1 ∧ (f.resume devices).1.attached = f.attached
    unfold resume
    split <;> exact ⟨⟨rfl, rfl, rfl⟩, rfl⟩
  | resized width height =>
    show f.Alike (f.resize devices width height).1 ∧ (f.resize devices width height).1.attached = f.attached
    unfold resize
    split <;> exact ⟨⟨rfl, rfl, rfl⟩, rfl⟩
  | redraw dt =>
    have drawn : f.Alike (f.drawDisplay dt) ∧ (f.drawDisplay dt).attached = f.attached := by
      unfold drawDisplay
      split <;> exact ⟨⟨rfl, rfl, rfl⟩, rfl⟩
    show f.Alike (f.redraw devices dt).1 ∧ (f.redraw devices dt).1.attached = f.attached
    simp only [redraw]
    split <;> exact ⟨⟨drawn.1.player, drawn.1.stage, drawn.1.phase⟩, drawn.2⟩
  | key place down escape =>
    cases escape with
    | true => exact ⟨⟨rfl, rfl, rfl⟩, rfl⟩
    | false =>
      show f.Alike (f.turnKey place down) ∧ (f.turnKey place down).attached = f.attached
      unfold turnKey
      split <;> exact ⟨⟨rfl, rfl, rfl⟩, rfl⟩
  | close | other => exact ⟨⟨rfl, rfl, rfl⟩, rfl⟩

theorem handle_alike (f : Front) (devices : Devices) (h : Happening) :
    f.Alike (f.handle devices h) ∧ (f.handle devices h).attached = f.attached := by
  obtain ⟨⟨player, stage, phase⟩, attached⟩ := f.respond_alike devices h
  unfold handle
  split
  · rename_i g responded
    rw [responded] at player stage phase attached
    exact ⟨⟨player, stage, phase⟩, attached⟩
  · rename_i g failure responded
    rw [responded] at player stage phase attached
    exact ⟨⟨player, stage, phase⟩, attached⟩

theorem detach_alike {f g : Front} (down : f.detach = .ok g) : f.Alike g := by
  unfold detach at down
  split at down
  · split at down
    · cases down
    · cases down
      exact ⟨rfl, rfl, rfl⟩
  · cases down
    exact ⟨rfl, rfl, rfl⟩

theorem exists_detach {f : Front} (attached : f.attached = true) {summary : Summary}
    (told : f.session.summary = .ok summary) : ∃ g, f.detach = .ok g := by
  unfold detach
  rw [if_pos attached, told]
  exact ⟨_, rfl⟩

end Front

namespace Process

variable {p : Process}

/-- The steps on the way out. -/
theorem leave_cases (p : Process) :
    (p.leaving = .notYet ∧ p.leave = ⟨{ p.front with session := p.front.session.stop }, .awaitingRun⟩) ∨
    (p.leaving = .awaitingRun ∧ ∃ f, p.front.detach = .ok f ∧ p.leave = ⟨f, .awaitingPlayer⟩) ∨
    (p.leaving = .awaitingRun ∧ ∃ failure, p.leave = { p with leaving := .failed failure }) ∨
    (p.leaving = .awaitingPlayer ∧ p.front.player.stage = .gone ∧ p.leave = { p with leaving := .done }) ∨
    p.leave = p := by
  unfold leave
  cases leaving : p.leaving with
  | notYet => exact .inl ⟨rfl, rfl⟩
  | awaitingRun =>
    by_cases finished : p.front.session.isFinished = true
    · cases down : p.front.detach with
      | ok f => exact .inr (.inl ⟨rfl, f, rfl, by simp [finished]⟩)
      | error failure => exact .inr (.inr (.inl ⟨rfl, failure, by simp [finished]⟩))
    · exact .inr (.inr (.inr (.inr (by simp [finished]))))
  | awaitingPlayer =>
    by_cases gone : p.front.player.stage = .gone
    · exact .inr (.inr (.inr (.inl ⟨rfl, gone, by simp [gone]⟩)))
    · exact .inr (.inr (.inr (.inr (by simp [gone]))))
  | done | failed failure => exact .inr (.inr (.inr (.inr rfl)))

theorem leave_alike (p : Process) : p.front.Alike p.leave.front := by
  rcases p.leave_cases with ⟨-, eq⟩ | ⟨-, f, down, eq⟩ | ⟨-, failure, eq⟩ | ⟨-, -, eq⟩ | eq
  · rw [eq]
    exact ⟨rfl, rfl, rfl⟩
  · rw [eq]
    exact Front.detach_alike down
  · rw [eq]
    exact .refl p.front
  · rw [eq]
    exact .refl p.front
  · rw [eq]
    exact .refl p.front

/-! ## What every turn keeps -/

/-- What every turn keeps, all turns keep. -/
theorem after_induction {P : Process → Prop} (kept : ∀ q a, P q → P (q.turn a)) (start : P p) (turns : List Turn) :
    P (p.after turns) := by
  induction turns generalizing p with
  | nil => exact start
  | cons a rest ih => exact ih (kept p a start)

/-- The player listens while the run is on, and what has been awaited has come. -/
structure Steady (p : Process) : Prop where
  begun : p.front.session.Begun
  player : p.front.player.Steady (p.front.session.stage = .over)
  attached : p.leaving = .notYet ∨ p.leaving = .awaitingRun → p.front.attached = true
  awaited : p.leaving = .done → p.front.player.stage = .gone

theorem Steady.turn (steady : p.Steady) (a : Turn) : (p.turn a).Steady := by
  obtain ⟨begun, player, attached, awaited⟩ := steady
  cases a with
  | machine now =>
    refine ⟨begun.step now, ⟨fun ended => ?_, player.silent⟩, attached, awaited⟩
    have past := player.stays ended
    show (p.front.session.step now).stage = .over
    rw [Session.step_of_over past, past]
  | player =>
    refine ⟨begun, player.step begun.over_iff.mp _, attached, fun done => ?_⟩
    show (p.front.player.step _ _).stage = .gone
    rw [Tone.Player.step_of_gone (awaited done), awaited done]
  | happening devices h =>
    obtain ⟨alike, held⟩ := p.front.handle_alike devices h
    exact ⟨alike.begun begun, alike.steady player, held.trans ∘ attached, fun done => alike.player ▸ awaited done⟩
  | leave =>
    have alike := p.leave_alike
    show p.leave.Steady
    rcases p.leave_cases with ⟨notYet, eq⟩ | ⟨-, f, -, eq⟩ | ⟨-, failure, eq⟩ | ⟨-, gone, eq⟩ | eq
    · rw [eq] at alike ⊢
      exact ⟨alike.begun begun, alike.steady player, fun _ => attached (.inl notYet), nofun⟩
    · rw [eq] at alike ⊢
      exact ⟨alike.begun begun, alike.steady player, by simp, nofun⟩
    · rw [eq]
      exact ⟨begun, player, by simp, nofun⟩
    · rw [eq]
      exact ⟨begun, player, by simp, fun _ => gone⟩
    · rw [eq]
      exact ⟨begun, player, attached, awaited⟩

theorem Steady.after (steady : p.Steady) (turns : List Turn) : (p.after turns).Steady :=
  after_induction (fun _ a kept => kept.turn a) steady turns

/-- A session that is over stays over. -/
theorem over_turn (past : p.front.session.stage = .over) (a : Turn) : (p.turn a).front.session.stage = .over := by
  cases a with
  | machine now =>
    show (p.front.session.step now).stage = .over
    rw [Session.step_of_over past, past]
  | player => exact past
  | happening devices h => exact (p.front.handle_alike devices h).1.stage.trans past
  | leave => exact p.leave_alike.stage.trans past

theorem over_after (past : p.front.session.stage = .over) (turns : List Turn) :
    (p.after turns).front.session.stage = .over :=
  after_induction (P := fun q => q.front.session.stage = .over) (fun _ a kept => over_turn kept a) past turns

/-! ## The player among the other turns -/

theorem player_turn {a : Turn} (quiet : a.isPlayer = false) (p : Process) :
    (p.turn a).front.player = p.front.player := by
  cases a with
  | machine now => rfl
  | player => cases quiet
  | happening devices h => exact (p.front.handle_alike devices h).1.player
  | leave => exact p.leave_alike.player

theorem player_after {turns : List Turn} (quiet : ∀ a ∈ turns, a.isPlayer = false) (p : Process) :
    (p.after turns).front.player = p.front.player := by
  induction turns generalizing p with
  | nil => rfl
  | cons a rest ih =>
    show ((p.turn a).after rest).front.player = p.front.player
    rw [ih (fun b member => quiet b (List.mem_cons_of_mem a member)), player_turn (quiet a List.mem_cons_self)]

/-- A round of the player that finds the run on ends in what the sound timer was when it looked. -/
theorem player_round (checking : p.front.player.stage = .checking) (running : p.front.session.isRunning = true)
    {first second : List Turn} (quietFirst : ∀ a ∈ first, a.isPlayer = false)
    (quietSecond : ∀ a ∈ second, a.isPlayer = false) :
    (p.after (.player :: first ++ .player :: second ++ [.player])).front.player =
      ⟨.checking, (p.after (.player :: first)).front.session.isSounding⟩ := by
  have looked : (p.after (.player :: first)).front.player.stage = .listening := by
    show ((p.turn .player).after first).front.player.stage = .listening
    rw [player_after quietFirst]
    show (p.front.player.step _ _).stage = .listening
    simp [Tone.Player.step, checking, running]
  rw [after_append, after_append]
  generalize p.after (.player :: first) = q at looked ⊢
  have heard : (q.after (.player :: second)).front.player.stage = .heard q.front.session.isSounding := by
    show ((q.turn .player).after second).front.player.stage = _
    rw [player_after quietSecond]
    show (q.front.player.step _ _).stage = _
    simp [Tone.Player.step, looked]
  show (q.after (.player :: second)).front.player.step _ _ = _
  simp [Tone.Player.step, heard]

/-- Once the run is over, few steps of the player make it go. -/
theorem left_after (past : p.front.session.stage = .over) (turns : List Turn) :
    (p.after turns).front.player.left ≤ p.front.player.left - turns.countP Turn.isPlayer := by
  induction turns generalizing p with
  | nil => exact Nat.le_refl _
  | cons a rest ih =>
    have later := ih (over_turn past a)
    show ((p.turn a).after rest).front.player.left ≤ _
    rw [List.countP_cons]
    cases quiet : a.isPlayer with
    | false =>
      rw [player_turn quiet] at later
      simpa using later
    | true =>
      cases a with
      | player =>
        have ended : p.front.session.isRunning = false := by simp [Session.isRunning, past]
        have stepped : (p.turn .player).front.player.left ≤ p.front.player.left - 1 := by
          show (p.front.player.step p.front.session.isRunning p.front.session.isSounding).left ≤ _
          rw [ended]
          exact p.front.player.left_step _
        simp only [↓reduceIte]
        omega
      | _ => cases quiet

theorem gone_after (past : p.front.session.stage = .over) {turns : List Turn}
    (enough : 4 ≤ turns.countP Turn.isPlayer) : (p.after turns).front.player.stage = .gone := by
  have few := p.front.player.left_le
  have later := left_after past turns
  exact Tone.Player.gone_of_left (by omega)

/-! ## A paced shutdown -/

theorem exists_turns_of_stepUntil (f : Front) (l : Leaving) (now : Nat) (ends : Front → Bool) (n : Nat) :
    ∃ turns, (⟨f, l⟩ : Process).after turns = ⟨f.stepUntil now ends n, l⟩ := by
  induction n generalizing f with
  | zero => exact ⟨[], rfl⟩
  | succ n ih =>
    rw [Front.stepUntil]
    by_cases ended : ends f = true
    · rw [if_pos ended]
      exact ⟨[], rfl⟩
    · rw [if_neg ended]
      obtain ⟨turns, eq⟩ := ih (f.pacedStep now)
      exact ⟨.machine (f.session.nextReading now) :: .player :: turns, eq⟩

theorem finished_stepUntil {f : Front} (begun : f.session.Begun) (asked : f.session.machine.stopping = true) (now : Nat)
    {n : Nat} (enough : f.session.left ≤ n) :
    (f.stepUntil now (·.session.isFinished) n).session.isFinished = true := by
  induction n generalizing f with
  | zero =>
    by_cases past : f.session.stage = .over
    · simp [Front.stepUntil, Session.isFinished, past]
    · simp [Session.left, past] at enough
  | succ n ih =>
    rw [Front.stepUntil]
    cases finished : f.session.isFinished with
    | true => simp [finished]
    | false =>
      have fewer := Session.left_step begun asked finished (f.session.nextReading now)
      simp only [Bool.false_eq_true, ↓reduceIte]
      exact ih (begun.step _) (Session.stopping_step asked _) (by
        show (f.session.step (f.session.nextReading now)).left ≤ n
        omega)

theorem over_of_detach {f g : Front} (attached : f.attached = true) (down : f.detach = .ok g)
    (finished : f.session.isFinished = true) : f.session.stage = .over := by
  simp only [Session.isFinished, Bool.or_eq_true, decide_eq_true_eq] at finished
  rcases finished with past | broken
  · exact past
  · simp [Front.detach, attached, Session.summary, broken] at down

/-- Once the run is over and the player is gone, two steps lead out. -/
theorem leave_leave {f g : Front} (down : f.detach = .ok g) (finished : f.session.isFinished = true)
    (gone : f.player.stage = .gone) : (⟨f, .awaitingRun⟩ : Process).leave.leave = ⟨g, .done⟩ := by
  have first : (⟨f, .awaitingRun⟩ : Process).leave = ⟨g, .awaitingPlayer⟩ := by
    simp [leave, finished, down]
  have goneStill : g.player.stage = .gone := by rw [(Front.detach_alike down).player, gone]
  rw [first]
  simp [leave, goneStill]

/-- A shutdown waits long enough for a run that was asked to stop. -/
theorem waits_of_shutdown {f g : Front} (attached : f.attached = true) {now : Nat} (down : f.shutdown now = .ok g) :
    ∃ n, 4 ≤ n ∧ (Front.stepUntil now (·.session.isFinished) n
      { f with session := f.session.stop }).stepPlayer.stepPlayer.stepPlayer.stepPlayer.detach = .ok g := by
  rw [Front.shutdown, if_pos attached, Front.finish] at down
  exact ⟨Session.patience, by decide, down⟩

/-- A paced shutdown is one order in which the front end is left. -/
theorem exists_turns_of_shutdown (steady : p.Steady) (notYet : p.leaving = .notYet) {now : Nat} {g : Front}
    (down : p.front.shutdown now = .ok g) : ∃ turns, p.after turns = ⟨g, .done⟩ := by
  obtain ⟨n, patient, down⟩ := waits_of_shutdown (steady.attached (.inl notYet)) down
  have asked : p.turn .leave = ⟨{ p.front with session := p.front.session.stop }, .awaitingRun⟩ := by
    simp [turn, leave, notYet]
  have steadyThen := steady.turn .leave
  rw [asked] at steadyThen
  have finished := finished_stepUntil steadyThen.begun rfl now (Nat.le_trans (Session.left_le _) patient)
  obtain ⟨waits, waited⟩ := exists_turns_of_stepUntil { p.front with session := p.front.session.stop } .awaitingRun now
    (·.session.isFinished) n
  have steadyLater := steadyThen.after waits
  rw [waited] at steadyLater
  generalize Front.stepUntil now _ _ _ = f at down finished waited steadyLater
  -- the four steps of the player leave the session alone
  have past : f.session.stage = .over :=
    over_of_detach (f := f.stepPlayer.stepPlayer.stepPlayer.stepPlayer) (steadyLater.attached (.inr rfl)) down finished
  have gone := gone_after (p := ⟨f, .awaitingRun⟩) past
    (by decide : 4 ≤ (List.replicate 4 Turn.player).countP Turn.isPlayer)
  refine ⟨.leave :: waits ++ List.replicate 4 .player ++ [.leave, .leave], ?_⟩
  rw [after_append, after_append, show p.after (.leave :: waits) = (p.turn .leave).after waits from rfl, asked, waited]
  exact leave_leave down finished gone

theorem stepUntil_of_ended {f : Front} {ends : Front → Bool} (ended : ends f = true) (now n : Nat) :
    f.stepUntil now ends n = f := by
  cases n with
  | zero => rfl
  | succ n => rw [Front.stepUntil, if_pos ended]

/-- Nothing keeps a shutdown from success when the run is over. -/
theorem exists_shutdown {f : Front} (begun : f.session.Begun) (past : f.session.stage = .over) (now : Nat) :
    ∃ g, f.shutdown now = .ok g := by
  obtain ⟨how, ended, whole⟩ := begun.ended past
  by_cases attached : f.attached = true
  · have finished : f.session.stop.isFinished = true := by
      simp [Session.isFinished, Session.stop, Session.mapMachine, past]
    have told : f.session.stop.summary = .ok _ := Session.summary_of_ended ended whole
    rw [Front.shutdown, if_pos attached, Front.finish, stepUntil_of_ended finished]
    exact Front.exists_detach attached told
  · rw [Front.shutdown, if_neg attached]
    exact ⟨f, rfl⟩

end Process

/-! ## From the start on -/

/-- What a front end begins with. -/
def Front.begun (rom : Rom) (config : Config) (random : List UInt8) (now : Nat) : Front :=
  ⟨.launched rom config random now, true, .start, none, none, .dark, false, none⟩

theorem Front.new_eq {devices : Devices} (opens : devices.audio = none) {config : Config}
    (ticks : config.clockSpeed ≠ 0) (rom : Rom) (random : List UInt8) (now : Nat) :
    new devices rom config random now = .ok (begun rom config random now) := by
  rw [new, opens, Session.launch_eq ticks]
  rfl

namespace Process

theorem steady_begun (rom : Rom) (config : Config) (random : List UInt8) (now : Nat) :
    (⟨.begun rom config random now, .notYet⟩ : Process).Steady where
  begun := .inl rfl
  player := ⟨by simp [Front.begun, Tone.Player.start], nofun⟩
  attached _ := rfl
  awaited := nofun

/-- In every order of the turns, a player that has stopped to listen finds the run over for good; a round that found it
on ends with a tone exactly if the sound timer was above zero when the player looked; and a player that is gone is
silent. It is gone when the front end has been left, which a shutdown that succeeds is one way to do, and when it has
taken four steps more after the run. -/
theorem tone_ends_with_run {devices : Devices} (opens : devices.audio = none) {config : Config}
    (ticks : config.clockSpeed ≠ 0) (rom : Rom) (random : List UInt8) (began : Nat) :
    ∃ f, Front.new devices rom config random began = .ok f ∧ f.player = ⟨.checking, false⟩ ∧
      ∀ turns p, (⟨f, .notYet⟩ : Process).after turns = p →
        (p.front.player.stage = .closing ∨ p.front.player.stage = .gone →
          (∃ how, p.front.session.run.phase = .ended how) ∧
          ∀ more, (p.after more).front.session.isRunning = false) ∧
        (p.front.player.stage = .checking → p.front.session.isRunning = true → ∀ first second : List Turn,
          (∀ a ∈ first, a.isPlayer = false) → (∀ a ∈ second, a.isPlayer = false) →
          (p.after (.player :: first ++ .player :: second ++ [.player])).front.player.stage = .checking ∧
          ((p.after (.player :: first ++ .player :: second ++ [.player])).front.player.playing = true ↔
            0 < (p.after (.player :: first)).front.session.machine.sound)) ∧
        (p.front.player.stage = .gone → p.front.player.playing = false) ∧
        (p.leaving = .done → p.front.player = ⟨.gone, false⟩) ∧
        (p.leaving = .notYet → ∀ now g, p.front.shutdown now = .ok g →
          g.player = ⟨.gone, false⟩ ∧ ∃ more, p.after more = ⟨g, .done⟩) ∧
        (p.front.session.isRunning = false →
          (p.leaving = .notYet → ∀ now, ∃ g, p.front.shutdown now = .ok g) ∧
          ∀ more : List Turn, 4 ≤ more.countP Turn.isPlayer → (p.after more).front.player = ⟨.gone, false⟩) := by
  refine ⟨Front.begun rom config random began, Front.new_eq opens ticks rom random began, rfl, ?_⟩
  rintro turns p rfl
  have steady := (steady_begun rom config random began).after turns
  generalize (⟨Front.begun rom config random began, .notYet⟩ : Process).after turns = p at steady
  have silent (q : Process) (steadyThen : q.Steady) (gone : q.front.player.stage = .gone) :
      q.front.player = ⟨.gone, false⟩ := by
    rw [← gone, ← steadyThen.player.silent gone]
  refine ⟨fun ended => ?_, fun checking running first second quietFirst quietSecond => ?_, steady.player.silent, ?_, ?_,
    ?_⟩
  · have past := steady.player.stays ended
    refine ⟨?_, fun more => ?_⟩
    · obtain ⟨how, ended, -⟩ := steady.begun.ended past
      exact ⟨how, ended⟩
    · simp [Session.isRunning, over_after past more]
  · rw [player_round checking running quietFirst quietSecond]
    exact ⟨rfl, by simp [Session.isSounding, Machine.isSounding]⟩
  · exact fun done => silent p steady (steady.awaited done)
  · intro notYet now g down
    obtain ⟨more, eq⟩ := exists_turns_of_shutdown steady notYet down
    have steadyThen := steady.after more
    rw [eq] at steadyThen
    exact ⟨silent ⟨g, .done⟩ steadyThen (steadyThen.awaited rfl), more, eq⟩
  · intro ended
    have past := steady.begun.over_iff.mp ended
    exact ⟨fun _ => exists_shutdown steady.begun past,
      fun more enough => silent _ (steady.after more) (gone_after past enough)⟩

/-- A program that sets the sound timer and runs off into empty memory. -/
def loudRom : Rom := [0x60, 30, 0xF0, 0x18]

/-- Rounds of the run, two milliseconds apart. -/
def rounds (first last : Nat) : List Turn :=
  (List.range' first (last - first)).flatMap fun k => List.replicate 3 (.machine (2000000 * (k + 1)))

/-- The run begins, sets the sound timer, and ends while the player is between its look at the timer and the tone. -/
def racing : List Turn := .player :: [] ++ .player :: rounds 2 7 ++ [.player]

/-- The tone is played although the run has ended, and then it falls silent although the sound timer runs. A run that
has ended before the first look of the player leaves no tone either. -/
theorem tone_ends_behind_loudRom :
    ∃ f, Front.new .working loudRom .default [] 0 = .ok f ∧
      (let p := (⟨f, .notYet⟩ : Process).after (rounds 0 2 ++ racing)
       p.front.player.playing = true ∧ p.front.session.isRunning = false ∧ 0 < p.front.session.machine.sound ∧
         (p.after (List.replicate 4 .player)).front.player = ⟨.gone, false⟩) ∧
      (let p := (⟨f, .notYet⟩ : Process).after (rounds 0 7)
       0 < p.front.session.machine.sound ∧ (p.after [.player]).front.session.isRunning = false ∧
         ∃ g more, p.front.shutdown 0 = .ok g ∧ p.after more = ⟨g, .done⟩ ∧ g.player = ⟨.gone, false⟩) := by
  obtain ⟨f, new, -, law⟩ :=
    tone_ends_with_run (rfl : Devices.working.audio = none) (by decide : Config.default.clockSpeed ≠ 0) loudRom [] 0
  obtain rfl : Front.begun loudRom .default [] 0 = f := by
    rw [Front.new_eq rfl (by decide)] at new
    exact Except.ok.inj new
  have seen :
      let p := (⟨.begun loudRom .default [] 0, .notYet⟩ : Process)
      (p.after (rounds 0 2)).front.player.stage = .checking ∧ (p.after (rounds 0 2)).front.session.isRunning = true ∧
        0 < (p.after (rounds 0 2 ++ [.player])).front.session.machine.sound ∧
        (p.after (rounds 0 2 ++ racing)).front.session.isRunning = false ∧
        0 < (p.after (rounds 0 2 ++ racing)).front.session.machine.sound ∧
        (p.after (rounds 0 7)).front.session.isRunning = false ∧
        0 < (p.after (rounds 0 7)).front.session.machine.sound ∧
        (p.after (rounds 0 7)).leaving = .notYet ∧
        (p.after (rounds 0 7 ++ [.player])).front.player.stage = .closing := by
    decide +kernel
  obtain ⟨checking, running, sounds, ended, loud, endedEarly, loudEarly, notYet, closing⟩ := seen
  refine ⟨_, new, ⟨?_, ended, loud, ?_⟩, loudEarly, ?_, ?_⟩
  · obtain ⟨-, round, -⟩ := law (rounds 0 2) _ rfl
    rw [after_append] at sounds ⊢
    exact (round checking running [] (rounds 2 7) nofun (by decide)).2.mpr sounds
  · obtain ⟨-, -, -, -, -, goes⟩ := law (rounds 0 2 ++ racing) _ rfl
    exact (goes ended).2 _ (by decide)
  · obtain ⟨stays, -⟩ := law (rounds 0 7 ++ [.player]) _ rfl
    rw [← after_append]
    exact (stays (.inl closing)).2 []
  · obtain ⟨-, -, -, -, down, goes⟩ := law (rounds 0 7) _ rfl
    obtain ⟨g, succeeds⟩ := (goes endedEarly).1 notYet 0
    obtain ⟨-, more, eq⟩ := down notYet 0 g succeeds
    obtain ⟨-, -, -, silent, -⟩ := law (rounds 0 7 ++ more) ⟨g, .done⟩ (by rw [after_append, eq])
    exact ⟨g, more, succeeds, eq, silent rfl⟩

end Process
end Chip8.Window
