import Chip8.Proofs.ToneEnds

/-!
# What has happened to the window

The windowed front end as its past leaves it. Devices may fail at any call of a handler, and the machine, the player and
the way out may go on in between. Each call answers for a few parts of the front end (`Front.respond_answers`), and
nothing else reaches them (`Process.handled_turn`). So keys, failures and the wish to leave are read off the calls
alone (`Process.window_follows_its_calls`).
-/

namespace Chip8.Window

/-- A call of a handler: which devices fail at that time, and what has happened. -/
structure Call where
  devices : Devices
  happening : Happening

/-- The call in a turn, if there is one. -/
def Turn.call? : Turn → Option Call
  | .happening devices h => some ⟨devices, h⟩
  | _ => none

namespace Call

/-- Whether a call puts a key down or up, if it does either. An event that means Escape turns no key. -/
def turns? (k : Digit) (c : Call) : Option Bool :=
  match c.happening with
  | .key place down false => if keyPlaces[k.val]? = some place then some down else none
  | _ => none

/-- Whether a call asks to leave, by the window or by Escape. -/
def leaves (c : Call) : Bool :=
  match c.happening with
  | .close | .key _ _ true => true
  | _ => false

/-- Whether a call makes a window. -/
def opens (c : Call) : Bool :=
  match c.happening with
  | .resumed => c.devices.window.isNone
  | _ => false

/-- Whether a call makes a window and its surface. -/
def surfaces (c : Call) : Bool := c.opens && c.devices.surface.isNone

/-- How a call fails, if it does. Without a surface there is nothing to be resized or drawn. -/
def fault (surfaced : Bool) (c : Call) : Option Failure :=
  match c.happening with
  | .resumed =>
    match c.devices.window with
    | some reason => some ⟨.makeWindow, [reason]⟩
    | none => c.devices.surface.map fun reason => ⟨.makeSurface, [reason]⟩
  | .resized width height =>
    if surfaced then (c.devices.sizes width height).map fun reason => ⟨.resizeSurface, [reason]⟩ else none
  | .redraw _ => if surfaced then c.devices.surface.map fun reason => ⟨.render, [reason]⟩ else none
  | .close | .key _ _ _ | .other => none

end Call

/-- The failures of calls, in their order. -/
def faults (surfaced : Bool) : List Call → List Failure
  | [] => []
  | c :: rest => (c.fault surfaced).toList ++ faults (surfaced || c.surfaces) rest

theorem faults_append (surfaced : Bool) (calls : List Call) (c : Call) :
    faults surfaced (calls ++ [c]) =
      faults surfaced calls ++ (c.fault (surfaced || calls.any Call.surfaces)).toList := by
  induction calls generalizing surfaced with
  | nil => simp [faults]
  | cons d rest ih => simp [faults, ih, Bool.or_assoc]

/-! ## What one call does -/

/-- No two keys have the same place. -/
theorem eq_of_keyPlaces : ∀ j k : Digit, keyPlaces[j.val]? = keyPlaces[k.val]? → j = k := by
  decide +kernel

theorem keyAt?_eq_some_iff {place : String} {k : Digit} : keyAt? place = some k ↔ keyPlaces[k.val]? = some place := by
  rw [keyAt?, Digit.find?_all_eq_some_iff (fun i j first second => ?_), decide_eq_true_eq]
  exact eq_of_keyPlaces i j ((of_decide_eq_true first).trans (of_decide_eq_true second).symm)

/-- What a front end makes of a call, and how it fails. -/
structure Answers (f : Front) (c : Call) (r : Front × Option Failure) : Prop where
  keys : ∀ k, r.1.keypad.holds k = (c.turns? k).getD (f.keypad.holds k)
  pane : r.1.pane.isSome = (f.pane.isSome || c.opens)
  surface : r.1.surface.isSome = (f.surface.isSome || c.surfaces)
  exiting : r.1.exiting = (f.exiting || c.leaves)
  failure : r.1.failure = f.failure
  fault : r.2 = c.fault f.surface.isSome

namespace Front

theorem holds_turnKey (f : Front) (place : String) (down : Bool) (k : Digit) :
    (f.turnKey place down).keypad.holds k = if keyPlaces[k.val]? = some place then down else f.keypad.holds k := by
  rw [turnKey]
  cases found : keyAt? place with
  | none =>
    have elsewhere : keyPlaces[k.val]? ≠ some place := by simp [← keyAt?_eq_some_iff, found]
    rw [if_neg elsewhere]
  | some j =>
    have here : keyPlaces[k.val]? = some place ↔ j = k := by simp [← keyAt?_eq_some_iff, found]
    simp only [here]
    exact Keypad.holds_put f.keypad j k down

theorem resume_answers (f : Front) (devices : Devices) : Answers f ⟨devices, .resumed⟩ (f.resume devices) := by
  cases window : devices.window with
  | some reason =>
    rw [resume, window]
    constructor <;> simp [Call.turns?, Call.opens, Call.surfaces, Call.leaves, Call.fault, window]
  | none =>
    cases surface : devices.surface with
    | some reason =>
      rw [resume, window, surface]
      constructor <;> simp [keypad, Call.turns?, Call.opens, Call.surfaces, Call.leaves, Call.fault, window, surface]
    | none =>
      rw [resume, window, surface]
      constructor <;>
        simp [keypad, askRedraw, Call.turns?, Call.opens, Call.surfaces, Call.leaves, Call.fault, window, surface]

theorem resize_answers (f : Front) (devices : Devices) (width height : Nat) :
    Answers f ⟨devices, .resized width height⟩ (f.resize devices width height) := by
  cases surface : f.surface with
  | none =>
    rw [resize, surface]
    constructor <;> simp [Call.turns?, Call.opens, Call.surfaces, Call.leaves, Call.fault, surface]
  | some s =>
    cases fault : devices.sizes width height <;> rw [resize, surface, fault] <;> constructor <;>
      simp [keypad, Call.turns?, Call.opens, Call.surfaces, Call.leaves, Call.fault, surface, fault]

theorem redraw_answers (f : Front) (devices : Devices) (dt : Float32) :
    Answers f ⟨devices, .redraw dt⟩ (f.redraw devices dt) := by
  cases surface : f.surface with
  | none =>
    have drawn : f.drawDisplay dt = f := by rw [drawDisplay, surface]
    rw [redraw, drawn]
    simp only [surface]
    constructor <;> simp [askRedraw, keypad, Call.turns?, Call.opens, Call.surfaces, Call.leaves, Call.fault, surface]
  | some s =>
    cases fault : devices.surface <;> constructor <;>
      simp [redraw, drawDisplay, askRedraw, keypad, Call.turns?, Call.opens, Call.surfaces, Call.leaves, Call.fault,
        surface, fault]

theorem turnKey_answers (f : Front) (devices : Devices) (place : String) (down : Bool) :
    Answers f ⟨devices, .key place down false⟩ (f.turnKey place down, none) := by
  have kept : ∃ session, f.turnKey place down = { f with session } := by
    unfold turnKey
    split <;> exact ⟨_, rfl⟩
  obtain ⟨session, eq⟩ := kept
  constructor
  case keys =>
    intro k
    by_cases here : keyPlaces[k.val]? = some place <;> simp [holds_turnKey, Call.turns?, here]
  all_goals simp [eq, Call.opens, Call.surfaces, Call.leaves, Call.fault]

/-- Every call is answered. -/
theorem respond_answers (f : Front) (devices : Devices) (h : Happening) :
    Answers f ⟨devices, h⟩ (f.respond devices h) := by
  cases h with
  | resumed => exact f.resume_answers devices
  | resized width height => exact f.resize_answers devices width height
  | redraw dt => exact f.redraw_answers devices dt
  | key place down escape =>
    cases escape with
    | true => constructor <;> simp [respond, keypad, Call.turns?, Call.opens, Call.surfaces, Call.leaves, Call.fault]
    | false => exact f.turnKey_answers devices place down
  | close | other =>
    constructor <;> simp [respond, keypad, Call.turns?, Call.opens, Call.surfaces, Call.leaves, Call.fault]

theorem handle_eq (f : Front) (devices : Devices) (h : Happening) :
    f.handle devices h = { (f.respond devices h).1 with
      exiting := (f.respond devices h).1.exiting || (f.respond devices h).2.isSome,
      failure := (f.respond devices h).2.or (f.respond devices h).1.failure } := by
  rw [handle]
  rcases f.respond devices h with ⟨g, _ | failure⟩ <;> simp

/-- A drawing of the window asks for one further drawing, and one that fails asks for none. -/
theorem pane_handle_redraw {f : Front} {pane : Pane} (there : f.pane = some pane) (devices : Devices) (dt : Float32) :
    (f.handle devices (.redraw dt)).pane =
      some (if (f.respond devices (.redraw dt)).2 = none then ⟨pane.redraws + 1⟩ else pane) := by
  rw [handle_eq]
  show (f.redraw devices dt).1.pane = some (if (f.redraw devices dt).2 = none then _ else _)
  cases surface : f.surface with
  | none =>
    have drawn : f.drawDisplay dt = f := by rw [drawDisplay, surface]
    rw [redraw, drawn]
    simp [surface, askRedraw, there]
  | some s => cases fault : devices.surface <;> simp [redraw, drawDisplay, surface, fault, askRedraw, there]

end Front

/-! ## What many calls leave behind -/

/-- A front end is as the calls so far have left it. -/
structure Follows (f : Front) (calls : List Call) : Prop where
  keys : ∀ k, f.keypad.holds k = (calls.filterMap (Call.turns? k)).getLast?.getD false
  pane : f.pane.isSome = calls.any Call.opens
  surface : f.surface.isSome = calls.any Call.surfaces
  exiting : f.exiting = (calls.any Call.leaves || !(faults false calls).isEmpty)
  failure : f.failure = (faults false calls).getLast?

theorem follows_begun (rom : Rom) (config : Config) (random : List UInt8) (now : Nat) :
    Follows (.begun rom config random now) [] where
  keys k := Keypad.holds_idle k
  pane := rfl
  surface := rfl
  exiting := rfl
  failure := rfl

theorem Follows.handle {f : Front} {calls : List Call} (follows : Follows f calls) (devices : Devices) (h : Happening) :
    Follows (f.handle devices h) (calls ++ [⟨devices, h⟩]) := by
  have answers := f.respond_answers devices h
  -- whether there is a surface to fail on is known from the calls before
  have fault := answers.fault
  rw [follows.surface] at fault
  rw [Front.handle_eq]
  constructor
  case keys =>
    intro k
    refine (answers.keys k).trans ?_
    rw [follows.keys k]
    cases turned : Call.turns? k ⟨devices, h⟩ <;> simp [turned]
  case pane => simp [answers.pane, follows.pane]
  case surface => simp [answers.surface, follows.surface]
  case exiting =>
    simp only [answers.exiting, follows.exiting, fault, faults_append, Bool.false_or, List.any_append]
    cases Call.fault (calls.any Call.surfaces) ⟨devices, h⟩ with
    | none => simp [Bool.or_right_comm]
    | some failure => simp
  case failure =>
    simp only [answers.failure, follows.failure, fault, faults_append, Bool.false_or]
    cases Call.fault (calls.any Call.surfaces) ⟨devices, h⟩ <;> simp

/-- The parts of a front end that calls have to do with. -/
def Front.handled (f : Front) : Keypad × Option Pane × Option Surface × Bool × Option Failure :=
  (f.keypad, f.pane, f.surface, f.exiting, f.failure)

theorem Follows.of_handled {f g : Front} {calls : List Call} (follows : Follows f calls)
    (same : g.handled = f.handled) : Follows g calls := by
  simp only [Front.handled, Prod.mk.injEq] at same
  obtain ⟨keypad, pane, surface, exiting, failure⟩ := same
  exact ⟨keypad ▸ follows.keys, pane ▸ follows.pane, surface ▸ follows.surface, exiting ▸ follows.exiting,
    failure ▸ follows.failure⟩

theorem Front.handled_detach {f g : Front} (down : f.detach = .ok g) : g.handled = f.handled := by
  unfold detach at down
  split at down
  · split at down
    · cases down
    · cases down
      rfl
  · cases down
    rfl

namespace Process

variable {p : Process}

/-- The machine, the player and the way out do nothing of what calls do. -/
theorem handled_turn {a : Turn} (silent : a.call? = none) (p : Process) :
    (p.turn a).front.handled = p.front.handled := by
  cases a with
  | machine now =>
    have keypad : (p.front.session.step now).machine.keypad = p.front.session.machine.keypad :=
      p.front.session.keypad_step now
    simp only [turn, Front.handled, Front.keypad, keypad]
  | player => rfl
  | happening devices h => cases silent
  | leave =>
    show p.leave.front.handled = p.front.handled
    rcases p.leave_cases with ⟨-, eq⟩ | ⟨-, f, down, eq⟩ | ⟨-, failure, eq⟩ | ⟨-, -, eq⟩ | eq <;> rw [eq]
    · rfl
    · exact Front.handled_detach down

theorem follows_turn {calls : List Call} (follows : Follows p.front calls) (a : Turn) :
    Follows (p.turn a).front (calls ++ a.call?.toList) := by
  cases called : a.call? with
  | none =>
    rw [Option.toList_none, List.append_nil]
    exact follows.of_handled (handled_turn called p)
  | some c =>
    cases a with
    | happening devices h =>
      cases called
      exact follows.handle devices h
    | _ => cases called

theorem follows_after {calls : List Call} (follows : Follows p.front calls) (turns : List Turn) :
    Follows (p.after turns).front (calls ++ turns.filterMap Turn.call?) := by
  induction turns generalizing p calls with
  | nil =>
    rw [List.filterMap_nil, List.append_nil]
    exact follows
  | cons a rest ih =>
    have split : (a :: rest).filterMap Turn.call? = a.call?.toList ++ rest.filterMap Turn.call? := by
      cases called : a.call? <;> simp [called]
    rw [split, ← List.append_assoc]
    exact ih (follows_turn follows a)

/-- In every order of the turns and whatever fails: a key is held exactly if the last event that turned it put it down,
and an event that means Escape turns none. The front end is to be left exactly if the window was to be closed, or an
event meant Escape, or a call failed; and the failure that is kept is that of the last call that failed. When a call
fails is known from the devices at that time and from whether any call before it made a window and its surface. Each
drawing of a window that succeeds asks for one further drawing, and one that fails asks for none. -/
theorem window_follows_its_calls {devices : Devices} (opens : devices.audio = none) {config : Config}
    (ticks : config.clockSpeed ≠ 0) (rom : Rom) (random : List UInt8) (began : Nat) :
    ∃ f, Front.new devices rom config random began = .ok f ∧ ∀ turns p, (⟨f, .notYet⟩ : Process).after turns = p →
      let calls := turns.filterMap Turn.call?
      (∀ k, p.front.keypad.holds k = true ↔ (calls.filterMap (Call.turns? k)).getLast? = some true) ∧
      (p.front.exiting = true ↔ (∃ c ∈ calls, c.leaves = true) ∨ faults false calls ≠ []) ∧
      ((p.front.failure = none ↔ faults false calls = []) ∧ p.front.failure = (faults false calls).getLast?) ∧
      (∀ devices h, (p.front.respond devices h).2 = Call.fault (calls.any Call.surfaces) ⟨devices, h⟩) ∧
      (p.front.pane.isSome = true ↔ ∃ c ∈ calls, c.opens = true) ∧
      ∀ devices dt pane, p.front.pane = some pane →
        let q := p.turn (.happening devices (.redraw dt))
        ((p.front.respond devices (.redraw dt)).2 = none → q.front.pane = some ⟨pane.redraws + 1⟩) ∧
        ((p.front.respond devices (.redraw dt)).2 ≠ none → q.front.pane = some pane) := by
  refine ⟨Front.begun rom config random began, Front.new_eq opens ticks rom random began, ?_⟩
  intro turns p reached calls
  have follows : Follows p.front calls := by
    have follows := follows_after (p := ⟨.begun rom config random began, .notYet⟩)
      (follows_begun rom config random began) turns
    rwa [reached, List.nil_append] at follows
  refine ⟨fun k => ?_, ?_, ⟨?_, follows.failure⟩, fun devices h => ?_, ?_, ?_⟩
  · rw [follows.keys k]
    cases (calls.filterMap (Call.turns? k)).getLast? <;> simp
  · simp [follows.exiting]
  · simp [follows.failure]
  · rw [← follows.surface]
    exact (p.front.respond_answers devices h).fault
  · simp [follows.pane]
  · intro devices dt pane there q
    have redrawn := Front.pane_handle_redraw there devices dt
    exact ⟨fun succeeds => redrawn.trans (by rw [if_pos succeeds]), fun fails => redrawn.trans (by rw [if_neg fails])⟩

/-- All devices work but the surface. -/
def unsurfaced : Devices := { Devices.working with surface := some "lost" }

/-- A window without a surface is drawn and told of keys, then a second one is made and cannot be drawn. -/
def secondWindow : List Turn := [
  .happening unsurfaced .resumed, .happening .working (.redraw 0), .happening .working (.key "KeyX" true false),
  .machine 2000000, .happening .working (.key "KeyX" false true), .happening .working (.key "Digit1" true false),
  .happening .working (.resized 0 0), .happening .working .resumed, .happening .working (.key "Digit1" false false),
  .leave, .happening unsurfaced (.redraw 0)]

theorem follows_secondWindow :
    ∃ f, Front.new .working loudRom .default [] 0 = .ok f ∧
      let p := (⟨f, .notYet⟩ : Process).after secondWindow
      p.front.keypad.holds 0 = true ∧ p.front.keypad.holds 1 = false ∧ p.front.exiting = true ∧
        p.front.failure = some ⟨.render, ["lost"]⟩ ∧
        ((⟨f, .notYet⟩ : Process).after (secondWindow.take 1)).front.failure = some ⟨.makeSurface, ["lost"]⟩ ∧
        (p.turn (.happening .working (.redraw 0))).front.pane = some ⟨2⟩ ∧
        (p.turn (.happening unsurfaced (.redraw 0))).front.pane = some ⟨1⟩ := by
  obtain ⟨f, new, law⟩ := window_follows_its_calls (rfl : Devices.working.audio = none)
    (by decide : Config.default.clockSpeed ≠ 0) loudRom [] 0
  obtain rfl : Front.begun loudRom .default [] 0 = f := by
    rw [Front.new_eq rfl (by decide)] at new
    exact Except.ok.inj new
  obtain ⟨keys, exiting, ⟨-, failure⟩, fails, -, redraws⟩ := law secondWindow _ rfl
  obtain ⟨-, -, ⟨-, first⟩, -⟩ := law (secondWindow.take 1) _ rfl
  have pane : ((⟨.begun loudRom .default [] 0, .notYet⟩ : Process).after secondWindow).front.pane = some ⟨1⟩ := by
    decide +kernel
  refine ⟨_, new, (keys 0).mpr ?_, ?_, exiting.mpr ?_, failure.trans ?_, first.trans ?_, ?_, ?_⟩
  · decide +kernel
  · rw [← Bool.not_eq_true, keys 1]
    decide +kernel
  · exact .inl (List.any_eq_true.mp (by decide +kernel))
  · decide +kernel
  · decide +kernel
  · exact (redraws .working 0 ⟨1⟩ pane).1 ((fails .working (.redraw 0)).trans (by decide +kernel))
  · refine (redraws unsurfaced 0 ⟨1⟩ pane).2 ?_
    rw [fails]
    decide +kernel

end Process
end Chip8.Window
