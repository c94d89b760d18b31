import Chip8.Proofs.HeldKeys
import Chip8.Proofs.WindowEvents

/-!
# Releases of keys

What an event says about a key that was let go should let it go (`LetsGo`). In the window it does
(`Window.Front.letsGo_handle`). In a terminal every event of a key counts as a press of it, whatever happened to the
key (`Terminal.Front.handle_again`), so a release that comes there presses the key once more
(`Terminal.Front.releases_count_as_presses`).
-/

namespace Chip8

/-- No key is held that was not held before, and the key that was let go is not. -/
structure LetsGo (before after : Keypad) (key : Option Digit) : Prop where
  held : ∀ k, after.holds k = true → before.holds k = true
  gone : ∀ k, key = some k → after.holds k = false

namespace Window.Front

theorem keypad_handle (f : Front) (devices : Devices) (h : Happening) :
    (f.handle devices h).keypad = (f.respond devices h).1.keypad := by
  rw [handle_eq]
  rfl

theorem letsGo_handle (f : Front) (devices : Devices) (place : String) :
    LetsGo f.keypad (f.handle devices (.key place false false)).keypad (keyAt? place) := by
  have turned (k : Digit) : (f.handle devices (.key place false false)).keypad.holds k =
      if keyPlaces[k.val]? = some place then false else f.keypad.holds k := by
    rw [keypad_handle]
    exact f.holds_turnKey place false k
  constructor
  case held =>
    intro k still
    rw [turned] at still
    by_cases here : keyPlaces[k.val]? = some place
    · simp [here] at still
    · rwa [if_neg here] at still
  case gone =>
    intro k named
    rw [turned, if_pos (keyAt?_eq_some_iff.mp named)]

end Window.Front

namespace Terminal

/-- A key is let go, and no press of a key gets a time. -/
structure Front.Releases (before after : Front) (key : Option Digit) : Prop extends
    LetsGo before.keypad after.keypad key where
  timed : ∀ k t, after.pressed.get k = some t → before.pressed.get k = some t

/-- A release asks to leave only with the control key. -/
theorem KeyEvent.leaves_release (code : KeyCode) (control : Bool) :
    (⟨code, .release, control⟩ : KeyEvent).Leaves ↔ code = .char 'c' ∧ control = true := by
  simp [KeyEvent.Leaves]

namespace Front

theorem holds_turn (f : Front) (k j : Digit) (time : Option Nat) :
    (f.turn k time).keypad.holds j = if k = j then time.isSome else f.keypad.holds j :=
  Keypad.holds_put ..

theorem holds_handle (f : Front) (e : KeyEvent) (now : Nat) (k : Digit) :
    (f.handle e now).keypad.holds k = if e.StandsFor k then true else f.keypad.holds k := by
  rcases f.handle_cases e now with ⟨-, none, eq⟩ | ⟨-, j, one, eq⟩ | ⟨-, none, eq⟩
  · rw [eq, if_neg (none k)]
    rfl
  · rw [eq, holds_turn]
    simp only [one]
    rfl
  · rw [eq, if_neg (none k)]

/-- Only for Escape does it matter what happened to a key. -/
theorem handle_again (f : Front) {code : KeyCode} (plain : code ≠ .escape) (kind : KeyKind) (control : Bool)
    (now : Nat) : f.handle ⟨code, kind, control⟩ now = f.handle ⟨code, .press, control⟩ now := by
  simp [handle, asksToQuit, plain]

/-- An event lets a key go only if it stands for none, and then no key of its character was held. -/
theorem releases_handle_iff (f : Front) (e : KeyEvent) (now : Nat) :
    f.Releases (f.handle e now) (keyOf? e.code) ↔
      ∀ k, keyOf? e.code = some k → e.Leaves ∧ f.keypad.holds k = false := by
  constructor
  · intro releases k named
    have gone := releases.gone k named
    rw [holds_handle] at gone
    by_cases stands : e.StandsFor k
    · simp [stands] at gone
    · rw [if_neg stands] at gone
      rw [standsFor_iff, and_iff_left named, Bool.not_eq_false] at stands
      exact ⟨(asksToQuit_iff e).mp stands, gone⟩
  · intro idle
    have none (k : Digit) : ¬e.StandsFor k := by
      intro stands
      obtain ⟨stays, named⟩ := (standsFor_iff e k).mp stands
      have leaves := (asksToQuit_iff e).mpr (idle k named).1
      rw [stays] at leaves
      cases leaves
    refine ⟨⟨fun k still => ?_, fun k named => ?_⟩, fun k t timed => ?_⟩
    · rwa [holds_handle, if_neg (none k)] at still
    · rw [holds_handle, if_neg (none k)]
      exact (idle k named).2
    · rwa [pressed_handle, if_neg (none k)] at timed

/-- Whatever has happened to a new front end: a release keeps to letting go only if its character has no key, or if it
asks to leave while the key of its character is not held. Every other release presses the key and gives it the time of
a press, just as a press would. Keys of other characters are left alone. -/
theorem releases_count_as_presses {config : Config} (ticks : config.clockSpeed ≠ 0) (rom : Rom) (random : List UInt8)
    (began : Nat) :
    ∃ f, new rom config random began = .ok f ∧ ∀ history (code : KeyCode) (control : Bool) now,
      let before := f.after history
      let e : KeyEvent := ⟨code, .release, control⟩
      let after := before.handle e now
      (before.Releases after (keyOf? code) ↔
        ∀ k, keyOf? code = some k → code = .char 'c' ∧ control = true ∧ before.keypad.holds k = false) ∧
      (∀ k, keyOf? code = some k → ¬(code = .char 'c' ∧ control = true) →
        after.keypad.holds k = true ∧ after.pressed.get k = some now ∧
          after = before.handle ⟨code, .press, control⟩ now) ∧
      ∀ k, keyOf? code ≠ some k ∨ (code = .char 'c' ∧ control = true) →
        after.keypad.holds k = before.keypad.holds k ∧ after.pressed.get k = before.pressed.get k := by
  refine ⟨begun rom config random began, new_eq ticks rom random began, ?_⟩
  intro history code control now before e after
  have leaves : e.Leaves ↔ code = .char 'c' ∧ control = true := KeyEvent.leaves_release code control
  have stands (k : Digit) : e.StandsFor k ↔ keyOf? code = some k ∧ ¬(code = .char 'c' ∧ control = true) := by
    rw [standsFor_iff, ← leaves, ← Bool.not_eq_true, asksToQuit_iff, and_comm]
  refine ⟨?_, fun k named plain => ?_, fun k other => ?_⟩
  · rw [before.releases_handle_iff e now, leaves]
    simp only [and_assoc]
    rfl
  · have here := (stands k).mpr ⟨named, plain⟩
    have notEscape : code ≠ .escape := by
      rintro rfl
      cases named
    refine ⟨?_, ?_, before.handle_again notEscape .release control now⟩
    · rw [holds_handle, if_pos here]
    · rw [pressed_handle, if_pos here]
  · have elsewhere : ¬e.StandsFor k := by
      rw [stands]
      rintro ⟨named, plain⟩
      rcases other with unnamed | leaving
      · exact unnamed named
      · exact plain leaving
    rw [holds_handle, if_neg elsewhere, pressed_handle, if_neg elsewhere]
    exact ⟨rfl, rfl⟩

/-- A program that goes round and round. -/
def idleRom : Rom := [0x12, 0x00]

/-- X is pressed and its time runs out before it is let go. -/
def slowX : List Happening := [.key ⟨.char 'x', .press, false⟩ 0, .check 60000000]

theorem release_presses_x :
    ∃ f, new idleRom .default [] 0 = .ok f ∧
      (f.after slowX).keypad.holds 0 = false ∧
      ((f.after slowX).handle ⟨.char 'x', .release, false⟩ 70000000).keypad.holds 0 = true ∧
      (f.after slowX).Releases ((f.after slowX).handle ⟨.char 'y', .release, false⟩ 70000000) none := by
  obtain ⟨f, new, law⟩ := releases_count_as_presses (by decide : Config.default.clockSpeed ≠ 0) idleRom [] 0
  obtain rfl : begun idleRom .default [] 0 = f := by
    rw [new_eq (by decide)] at new
    exact Except.ok.inj new
  obtain ⟨-, presses, -⟩ := law slowX (.char 'x') false 70000000
  obtain ⟨keeps, -, -⟩ := law slowX (.char 'y') false 70000000
  refine ⟨_, new, ?_, ?_, ?_⟩
  · decide +kernel
  · exact (presses 0 (by decide) (by decide)).1
  · have unmapped : keyOf? (.char 'y') = none := by decide
    rw [unmapped] at keeps
    exact keeps.mpr nofun

/-- A release of X does not let go of its key, which nobody has pressed. -/
theorem release_lets_nothing_go :
    ∃ f, new idleRom .default [] 0 = .ok f ∧
      ¬f.Releases (f.handle ⟨.char 'x', .release, false⟩ 0) (keyOf? (.char 'x')) := by
  refine ⟨begun idleRom .default [] 0, new_eq (by decide) idleRom [] 0, fun releases => ?_⟩
  have gone := releases.gone 0 (by decide)
  rw [holds_handle, if_pos (by decide)] at gone
  cases gone

end Front
end Terminal
end Chip8
