import Chip8.Proofs.Sessions
import Chip8.Terminal.Front
import Mathlib.Data.List.Induction

/-!
# The held keys of the terminal front end

Whether a key is held is kept twice: on the keypad, and in the times of the presses. The two stay in step
(`Front.Synced`). A press holds a key until a check comes too late behind it, if no other press has come before
(`Front.pressed_after`).
-/

namespace Chip8.Terminal

/-- What happens to a front end: a key of the keyboard, a check of the times, or a step of the machine, each at what
the clock shows. -/
inductive Happening
  | key (e : KeyEvent) (now : Nat)
  | check (now : Nat)
  | machine (now : Nat)

/-- Whether an event counts for a key of the keypad. With the control key, C does not. -/
def KeyEvent.StandsFor (e : KeyEvent) (k : Digit) : Prop :=
  keyChars[k.val]?.map .char = some e.code ∧ ¬(e.code = .char 'c' ∧ e.control = true)

/-- Whether an event asks to leave. -/
def KeyEvent.Leaves (e : KeyEvent) : Prop :=
  (e.code = .char 'c' ∧ e.control = true) ∨ (e.code = .escape ∧ e.kind = .press)

instance (e : KeyEvent) (k : Digit) : Decidable (e.StandsFor k) := inferInstanceAs (Decidable (_ ∧ _))

def Happening.check? : Happening → Option Nat
  | .check now => some now
  | _ => none

/-- What the clock showed in each check of a history. -/
def checks (history : List Happening) : List Nat := history.filterMap Happening.check?

/-- The most recent event for a key: when it came, and what has happened since. -/
def LastPress (k : Digit) (history : List Happening) (time : Nat) (since : List Happening) : Prop :=
  ∃ before e, history = before ++ .key e time :: since ∧ e.StandsFor k ∧
    ∀ e now, .key e now ∈ since → ¬e.StandsFor k

/-- The last check, if there was one, did not come too late for a press. -/
def InTime (time : Nat) (since : List Happening) : Prop := ∀ c ∈ (checks since).getLast?, c - time ≤ holdTime

instance (time : Nat) (since : List Happening) : Decidable (InTime time since) :=
  inferInstanceAs (Decidable (∀ c ∈ (checks since).getLast?, _))

def Front.happen (f : Front) : Happening → Front
  | .key e now => f.handle e now
  | .check now => f.checkTimes now
  | .machine now => { f with session := f.session.step now }

/-- The front end after a history. -/
def Front.after (f : Front) (history : List Happening) : Front := history.foldl happen f

/-! ## The most recent press -/

section
variable {k : Digit} {history since : List Happening} {time : Nat}

theorem snoc_eq_append_cons {α : Type} {xs ys zs : List α} {a b : α} :
    xs ++ [a] = ys ++ b :: zs ↔ (zs = [] ∧ a = b ∧ xs = ys) ∨ ∃ past, zs = past ++ [a] ∧ xs = ys ++ b :: past := by
  constructor
  · intro split
    rcases List.eq_nil_or_concat zs with rfl | ⟨past, last, rfl⟩
    · obtain ⟨front, same⟩ := List.append_inj' split rfl
      cases same
      exact .inl ⟨rfl, rfl, front⟩
    · rw [List.concat_eq_append, ← List.cons_append, ← List.append_assoc] at split
      obtain ⟨front, same⟩ := List.append_inj' split rfl
      cases same
      exact .inr ⟨past, List.concat_eq_append, front⟩
  · rintro (⟨rfl, rfl, rfl⟩ | ⟨past, rfl, rfl⟩) <;> simp

theorem lastPress_press {e : KeyEvent} (stands : e.StandsFor k) (now : Nat) :
    LastPress k (history ++ [.key e now]) time since ↔ time = now ∧ since = [] := by
  constructor
  · rintro ⟨before, e', split, -, none⟩
    rcases snoc_eq_append_cons.mp split with ⟨rfl, same, -⟩ | ⟨past, rfl, -⟩
    · cases same
      exact ⟨rfl, rfl⟩
    · exact absurd stands (none e now (by simp))
  · rintro ⟨rfl, rfl⟩
    exact ⟨history, e, rfl, stands, by simp⟩

theorem lastPress_other {a : Happening} (other : ∀ e now, a = .key e now → ¬e.StandsFor k) :
    LastPress k (history ++ [a]) time since ↔ ∃ past, since = past ++ [a] ∧ LastPress k history time past := by
  constructor
  · rintro ⟨before, e, split, stands, none⟩
    rcases snoc_eq_append_cons.mp split with ⟨-, same, -⟩ | ⟨past, rfl, rfl⟩
    · exact absurd stands (other e time same)
    · exact ⟨past, rfl, before, e, rfl, stands, fun e now member => none e now (List.mem_append_left _ member)⟩
  · rintro ⟨past, rfl, before, e, rfl, stands, none⟩
    refine ⟨before, e, by simp, stands, fun e now member => ?_⟩
    rcases List.mem_append.mp member with earlier | last
    · exact none e now earlier
    · exact other e now (List.mem_singleton.mp last).symm

end

theorem inTime_check (now : Nat) : InTime time (since ++ [.check now]) ↔ now - time ≤ holdTime := by
  simp [InTime, checks, Happening.check?]

theorem inTime_other {a : Happening} (unread : a.check? = none) : InTime time (since ++ [a]) ↔ InTime time since := by
  simp [InTime, checks, unread]

theorem LastPress.unique {time' : Nat} {since' : List Happening} (first : LastPress k history time since)
    (second : LastPress k history time' since') : time = time' ∧ since = since' := by
  induction history using List.reverseRecOn generalizing since since' with
  | nil =>
    obtain ⟨before, e, split, -⟩ := first
    simp at split
  | append_singleton history a ih =>
    by_cases press : ∃ e now, a = .key e now ∧ e.StandsFor k
    · obtain ⟨e, now, rfl, stands⟩ := press
      obtain ⟨here, rfl⟩ := (lastPress_press stands now).mp first
      obtain ⟨here', rfl⟩ := (lastPress_press stands now).mp second
      exact ⟨here.trans here'.symm, rfl⟩
    · have other : ∀ e now, a = .key e now → ¬e.StandsFor k := fun e now eq stands => press ⟨e, now, eq, stands⟩
      obtain ⟨past, rfl, before⟩ := (lastPress_other other).mp first
      obtain ⟨past', rfl, before'⟩ := (lastPress_other other).mp second
      obtain ⟨sameTime, rfl⟩ := ih before before'
      exact ⟨sameTime, rfl⟩

/-! ## One event -/

/-- No two keys have the same character. -/
theorem eq_of_keyChars : ∀ j k : Digit, keyChars[j.val]? = keyChars[k.val]? → j = k := by
  decide

/-- Only one key has the character C. -/
theorem keyChars_eq_c_iff : ∀ k : Digit, keyChars[k.val]?.map KeyCode.char = some (.char 'c') ↔ k = 0xB := by
  decide

theorem keyOf?_eq_some_iff {code : KeyCode} {k : Digit} :
    keyOf? code = some k ↔ keyChars[k.val]?.map .char = some code := by
  rw [keyOf?, Digit.find?_all_eq_some_iff (fun i j first second => ?_), decide_eq_true_eq]
  have same : keyChars[i.val]?.map KeyCode.char = keyChars[j.val]?.map .char := by
    rw [of_decide_eq_true first, of_decide_eq_true second]
  exact eq_of_keyChars i j (Option.map_injective (fun _ _ eq => KeyCode.char.inj eq) same)

theorem asksToQuit_iff (e : KeyEvent) : Front.asksToQuit e = true ↔ e.Leaves := by
  simp [Front.asksToQuit, KeyEvent.Leaves]

theorem standsFor_iff (e : KeyEvent) (k : Digit) :
    e.StandsFor k ↔ Front.asksToQuit e = false ∧ keyOf? e.code = some k := by
  rw [keyOf?_eq_some_iff, ← Bool.not_eq_true, asksToQuit_iff]
  constructor
  · rintro ⟨there, plain⟩
    refine ⟨?_, there⟩
    rintro (held | ⟨escape, -⟩)
    · exact plain held
    · rw [escape] at there
      cases found : keyChars[k.val]? <;> simp [found] at there
  · rintro ⟨stays, there⟩
    exact ⟨there, fun held => stays (.inl held)⟩

namespace Front

/-- The keypad holds the keys whose presses have a time. -/
def Synced (f : Front) : Prop := ∀ k, f.keypad.holds k = (f.pressed.get k).isSome

/-- Notes when a key was pressed, or that it was let go, and brings the keypad in step. -/
def turn (f : Front) (k : Digit) (time : Option Nat) : Front :=
  { f.note k time with session := f.session.mapKeypad (·.put k time.isSome) }

theorem pressed_turn (f : Front) (k j : Digit) (time : Option Nat) :
    (f.turn k time).pressed.get j = if k = j then time else f.pressed.get j := by
  simp [turn, note, Table.get_set]

theorem Synced.turn {f : Front} (synced : f.Synced) (k : Digit) (time : Option Nat) : (f.turn k time).Synced := by
  intro j
  rw [pressed_turn, show (f.turn k time).keypad = f.keypad.put k time.isSome from rfl, Keypad.holds_put]
  by_cases same : k = j
  · rw [if_pos same, if_pos same]
  · rw [if_neg same, if_neg same, synced j]

/-- An event asks to leave, or turns the one key that it stands for, or does nothing. -/
theorem handle_cases (f : Front) (e : KeyEvent) (now : Nat) :
    (asksToQuit e = true ∧ (∀ j, ¬e.StandsFor j) ∧ f.handle e now = { f with quitting := true }) ∨
    (asksToQuit e = false ∧ ∃ k, (∀ j, e.StandsFor j ↔ k = j) ∧ f.handle e now = f.turn k (some now)) ∨
    (asksToQuit e = false ∧ (∀ j, ¬e.StandsFor j) ∧ f.handle e now = f) := by
  simp only [standsFor_iff]
  cases leaves : asksToQuit e with
  | true => exact .inl ⟨rfl, by simp, by simp [handle, leaves]⟩
  | false =>
    refine .inr ?_
    cases found : keyOf? e.code with
    | none => exact .inr ⟨rfl, by simp, by simp [handle, leaves, found]⟩
    | some k =>
      refine .inl ⟨rfl, k, by simp, ?_⟩
      simp [handle, leaves, found, turn, Keypad.press]

theorem pressed_handle (f : Front) (e : KeyEvent) (now : Nat) (k : Digit) :
    (f.handle e now).pressed.get k = if e.StandsFor k then some now else f.pressed.get k := by
  rcases f.handle_cases e now with ⟨-, none, eq⟩ | ⟨-, j, one, eq⟩ | ⟨-, none, eq⟩
  · rw [eq, if_neg (none k)]
  · rw [eq, pressed_turn]
    simp only [one]
  · rw [eq, if_neg (none k)]

theorem Synced.handle {f : Front} (synced : f.Synced) (e : KeyEvent) (now : Nat) : (f.handle e now).Synced := by
  rcases f.handle_cases e now with ⟨-, -, eq⟩ | ⟨-, j, -, eq⟩ | ⟨-, -, eq⟩
  · rw [eq]
    exact synced
  · rw [eq]
    exact synced.turn j (some now)
  · rw [eq]
    exact synced

theorem quitting_handle (f : Front) (e : KeyEvent) (now : Nat) :
    (f.handle e now).quitting = (f.quitting || asksToQuit e) := by
  rcases f.handle_cases e now with ⟨leaves, -, eq⟩ | ⟨stays, j, -, eq⟩ | ⟨stays, -, eq⟩
  · simp [eq, leaves]
  · simp [eq, stays, turn, note]
  · simp [eq, stays]

/-! ## One check -/

/-- The time of a press, unless it is too long ago. -/
def kept (now : Nat) (time : Option Nat) : Option Nat := time.filter fun t => now - t ≤ holdTime

theorem kept_kept (now : Nat) (time : Option Nat) : kept now (kept now time) = kept now time := by
  simp [kept, Option.filter_filter]

theorem kept_some (now t : Nat) : kept now (some t) = if holdTime < now - t then none else some t := by
  rw [kept, Option.filter_some]
  by_cases late : holdTime < now - t
  · rw [if_pos late, if_neg (by simpa using Nat.not_le_of_lt late)]
  · rw [if_neg late, if_pos (by simpa using Nat.le_of_not_lt late)]

/-- A key that has expired is let go, and no other. -/
theorem expire_cases (f : Front) (now : Nat) (k : Digit) :
    (kept now (f.pressed.get k) = none ∧ f.expire now k = f.turn k none) ∨
    (kept now (f.pressed.get k) = f.pressed.get k ∧ f.expire now k = f) := by
  rw [expire, hasExpired]
  cases pressed : f.pressed.get k with
  | none => exact .inr ⟨rfl, by simp⟩
  | some t =>
    rw [kept_some]
    by_cases late : holdTime < now - t
    · exact .inl ⟨by rw [if_pos late], by simp [late, turn, Keypad.release]⟩
    · exact .inr ⟨by rw [if_neg late], by simp [late]⟩

theorem pressed_expire (f : Front) (now : Nat) (j k : Digit) :
    (f.expire now j).pressed.get k = if j = k then kept now (f.pressed.get k) else f.pressed.get k := by
  rcases f.expire_cases now j with ⟨gone, eq⟩ | ⟨same, eq⟩
  · rw [eq, pressed_turn]
    by_cases here : j = k
    · rw [if_pos here, if_pos here, ← here, gone]
    · rw [if_neg here, if_neg here]
  · rw [eq]
    by_cases here : j = k
    · rw [if_pos here, ← here, same]
    · rw [if_neg here]

theorem Synced.expire {f : Front} (synced : f.Synced) (now : Nat) (k : Digit) : (f.expire now k).Synced := by
  rcases f.expire_cases now k with ⟨-, eq⟩ | ⟨-, eq⟩
  · rw [eq]
    exact synced.turn k none
  · rw [eq]
    exact synced

theorem pressed_foldl_expire (ks : List Digit) (f : Front) (now : Nat) (k : Digit) :
    (k ∈ ks → (ks.foldl (expire now) f).pressed.get k = kept now (f.pressed.get k)) ∧
      (k ∉ ks → (ks.foldl (expire now) f).pressed.get k = f.pressed.get k) := by
  induction ks generalizing f with
  | nil => exact ⟨nofun, fun _ => rfl⟩
  | cons j rest ih =>
    obtain ⟨inside, outside⟩ := ih (f.expire now j)
    rw [pressed_expire] at inside outside
    rw [List.foldl_cons]
    by_cases here : j = k
    · rw [if_pos here] at inside outside
      refine ⟨fun _ => ?_, fun absent => absurd (by simp [here]) absent⟩
      by_cases again : k ∈ rest
      · rw [inside again, kept_kept]
      · exact outside again
    · rw [if_neg here] at inside outside
      refine ⟨fun member => ?_, fun absent => outside fun later => absent (List.mem_cons_of_mem j later)⟩
      rcases List.mem_cons.mp member with same | later
      · exact absurd same.symm here
      · exact inside later

theorem pressed_checkTimes (f : Front) (now : Nat) (k : Digit) :
    (f.checkTimes now).pressed.get k = kept now (f.pressed.get k) :=
  (pressed_foldl_expire Digit.all f now k).1 (by simp [Digit.all])

theorem Synced.checkTimes {f : Front} (synced : f.Synced) (now : Nat) : (f.checkTimes now).Synced := by
  rw [Front.checkTimes]
  generalize Digit.all = ks
  induction ks generalizing f with
  | nil => exact synced
  | cons j rest ih => exact ih (synced.expire now j)

theorem quitting_checkTimes (f : Front) (now : Nat) : (f.checkTimes now).quitting = f.quitting := by
  rw [checkTimes]
  generalize Digit.all = ks
  induction ks generalizing f with
  | nil => rfl
  | cons j rest ih =>
    rw [List.foldl_cons, ih]
    rcases f.expire_cases now j with ⟨-, eq⟩ | ⟨-, eq⟩
    · rw [eq]
      rfl
    · rw [eq]

/-! ## Whole histories -/

theorem after_snoc (f : Front) (history : List Happening) (a : Happening) :
    f.after (history ++ [a]) = (f.after history).happen a := List.foldl_append ..

theorem Synced.after {f : Front} (synced : f.Synced) (history : List Happening) : (f.after history).Synced := by
  induction history using List.reverseRecOn with
  | nil => exact synced
  | append_singleton history a ih =>
    rw [after_snoc]
    cases a with
    | key e now => exact ih.handle e now
    | check now => exact ih.checkTimes now
    | machine now =>
      intro k
      show ((f.after history).session.step now).machine.keypad.holds k = _
      rw [Session.keypad_step]
      exact ih k

theorem quitting_after (f : Front) (history : List Happening) :
    (f.after history).quitting = true ↔
      f.quitting = true ∨ ∃ e now, .key e now ∈ history ∧ e.Leaves := by
  induction history using List.reverseRecOn with
  | nil => simp [after]
  | append_singleton history a ih =>
    rw [after_snoc]
    cases a with
    | key e now =>
      rw [happen, quitting_handle, Bool.or_eq_true, asksToQuit_iff, ih]
      constructor
      · rintro ((early | ⟨e', t, member, leaves⟩) | leaves)
        · exact .inl early
        · exact .inr ⟨e', t, List.mem_append_left _ member, leaves⟩
        · exact .inr ⟨e, now, by simp, leaves⟩
      · rintro (early | ⟨e', t, member, leaves⟩)
        · exact .inl (.inl early)
        · rcases List.mem_append.mp member with before | last
          · exact .inl (.inr ⟨e', t, before, leaves⟩)
          · cases List.mem_singleton.mp last
            exact .inr leaves
    | check now =>
      rw [happen, quitting_checkTimes, ih]
      simp
    | machine now => simpa [happen] using ih

/-- A key has a time while the last check behind its last press, if there was one, came in time. -/
theorem pressed_after {f : Front} {k : Digit} (fresh : f.pressed.get k = none) {history : List Happening}
    (ordered : (checks history).Pairwise (· ≤ ·)) (time : Nat) :
    (f.after history).pressed.get k = some time ↔ ∃ since, LastPress k history time since ∧ InTime time since := by
  induction history using List.reverseRecOn with
  | nil =>
    constructor
    · intro pressed
      rw [show (f.after []).pressed = f.pressed from rfl, fresh] at pressed
      cases pressed
    · rintro ⟨since, ⟨before, e, split, -⟩, -⟩
      simp at split
  | append_singleton history a ih =>
    rw [checks, List.filterMap_append, List.pairwise_append] at ordered
    obtain ⟨orderedBefore, -, later⟩ := ordered
    rw [after_snoc]
    -- only a press or a check changes what is known of the key
    have unchanged (other : ∀ e now, a = .key e now → ¬e.StandsFor k) (unread : a.check? = none) :
        (f.after history).pressed.get k = some time ↔
          ∃ since, LastPress k (history ++ [a]) time since ∧ InTime time since := by
      rw [ih orderedBefore]
      constructor
      · rintro ⟨past, last, inTime⟩
        exact ⟨past ++ [a], (lastPress_other other).mpr ⟨past, rfl, last⟩, (inTime_other unread).mpr inTime⟩
      · rintro ⟨since, last, inTime⟩
        obtain ⟨past, rfl, before⟩ := (lastPress_other other).mp last
        exact ⟨past, before, (inTime_other unread).mp inTime⟩
    cases a with
    | key e now =>
      rw [happen, pressed_handle]
      by_cases stands : e.StandsFor k
      · rw [if_pos stands]
        constructor
        · intro pressed
          exact ⟨[], (lastPress_press stands now).mpr ⟨(Option.some.inj pressed).symm, rfl⟩, by simp [InTime, checks]⟩
        · rintro ⟨since, last, -⟩
          rw [((lastPress_press stands now).mp last).1]
      · rw [if_neg stands]
        refine unchanged ?_ rfl
        rintro e' now' ⟨⟩
        exact stands
    | check now =>
      have other : ∀ e now', Happening.check now = .key e now' → ¬e.StandsFor k := nofun
      rw [happen, pressed_checkTimes, kept, Option.filter_eq_some_iff, ih orderedBefore, decide_eq_true_eq]
      constructor
      · rintro ⟨⟨past, last, -⟩, soon⟩
        exact ⟨past ++ [.check now], (lastPress_other other).mpr ⟨past, rfl, last⟩, (inTime_check now).mpr soon⟩
      · rintro ⟨since, last, inTime⟩
        obtain ⟨past, rfl, before⟩ := (lastPress_other other).mp last
        have soon := (inTime_check now).mp inTime
        refine ⟨⟨past, before, fun c member => ?_⟩, soon⟩
        -- a check before this one was no later
        obtain ⟨front, e, rfl, -⟩ := before
        have inHistory : c ∈ checks (front ++ .key e time :: past) := by
          rw [checks, List.filterMap_append, List.filterMap_cons]
          exact List.mem_append_right _ (List.mem_of_mem_getLast? member)
        have sooner : c ≤ now := later c inHistory now (by simp [Happening.check?])
        omega
    | machine now => exact unchanged nofun rfl

/-- What a front end begins with. -/
def begun (rom : Rom) (config : Config) (random : List UInt8) (now : Nat) : Front :=
  ⟨.launched rom config random now, true, false, Vector.replicate 16 none⟩

theorem new_eq {config : Config} (ticks : config.clockSpeed ≠ 0) (rom : Rom) (random : List UInt8) (now : Nat) :
    new rom config random now = .ok (begun rom config random now) := by
  rw [new, Session.launch_eq ticks]
  rfl

theorem synced_begun (rom : Rom) (config : Config) (random : List UInt8) (now : Nat) :
    (begun rom config random now).Synced := by
  intro k
  show Keypad.idle.holds k = ((Vector.replicate 16 none : Vector (Option Nat) 16).get k).isSome
  simp

/-- A new front end holds a key on the keypad exactly while it has the time of a press of it. By a clock that does not go
back between checks, that is so while the last check behind the last press of the key, if there was one, came in time.
One check lets all keys go whose presses are too long ago, and no others. The front end is to be left once an event
has asked for that; such an event turns no key, though without the control key C stands for one. -/
theorem keys_are_held_until_a_late_check {config : Config} (ticks : config.clockSpeed ≠ 0) (rom : Rom)
    (random : List UInt8) (began : Nat) :
    (∃ f, new rom config random began = .ok f ∧ ∀ history,
      (∀ k, (f.after history).keypad.holds k = ((f.after history).pressed.get k).isSome) ∧
      ((checks history).Pairwise (· ≤ ·) → ∀ k, (f.after history).keypad.holds k = true ↔
        ∃ time since, LastPress k history time since ∧ InTime time since) ∧
      (∀ now k, ((f.after history).checkTimes now).keypad.holds k = true ↔
        (f.after history).keypad.holds k = true ∧ ∀ t ∈ (f.after history).pressed.get k, now - t ≤ holdTime) ∧
      ((f.after history).quitting = true ↔ ∃ e now, .key e now ∈ history ∧ e.Leaves) ∧
      (∀ more, (f.after history).quitting = true → (f.after (history ++ more)).quitting = true) ∧
      ∀ e now, e.Leaves → ((f.after history).handle e now).keypad = (f.after history).keypad ∧
        ((f.after history).handle e now).pressed = (f.after history).pressed) ∧
    ∀ e : KeyEvent, e.code = .char 'c' → e.control = false → ∀ k, e.StandsFor k ↔ k = 0xB := by
  refine ⟨⟨begun rom config random began, new_eq ticks rom random began, fun history => ?_⟩, ?_⟩
  · have synced := (synced_begun rom config random began).after history
    have quits := quitting_after (begun rom config random began)
    refine ⟨synced, fun ordered k => ?_, fun now k => ?_, ?_, fun more early => ?_, fun e now leaves => ?_⟩
    · have fresh : (begun rom config random began).pressed.get k = none := by simp [begun]
      rw [synced k, Option.isSome_iff_exists]
      simp only [pressed_after fresh ordered]
    · rw [synced.checkTimes now k, pressed_checkTimes, synced k]
      cases ((begun rom config random began).after history).pressed.get k with
      | none => simp [kept]
      | some t => simp [kept]
    · rw [quits]
      simp [begun]
    · rw [quits] at early ⊢
      rcases early with early | ⟨e, now, member, leaves⟩
      · exact .inl early
      · exact .inr ⟨e, now, List.mem_append_left _ member, leaves⟩
    · rw [handle, if_pos ((asksToQuit_iff e).mpr leaves)]
      exact ⟨rfl, rfl⟩
  · intro e letter plain k
    rw [← keyChars_eq_c_iff]
    simp [KeyEvent.StandsFor, letter, plain]

/-- A key is pressed and refreshed, then an event asks to leave, then another key is pressed. -/
def typing : List Happening :=
  [.key ⟨.char 'w', .press, false⟩ 0, .check 50000000, .machine 55000000, .key ⟨.char 'w', .again, false⟩ 60000000,
    .key ⟨.char 'c', .press, true⟩ 65000000, .key ⟨.char 'c', .press, false⟩ 70000000, .check 110000000]

theorem lastPress_typing : LastPress 0x5 typing 60000000
    [.key ⟨.char 'c', .press, true⟩ 65000000, .key ⟨.char 'c', .press, false⟩ 70000000, .check 110000000] := by
  refine ⟨typing.take 3, ⟨.char 'w', .again, false⟩, rfl, by decide, ?_⟩
  intro e now member
  simp only [List.mem_cons, Happening.key.injEq, List.not_mem_nil, or_false, reduceCtorEq] at member
  rcases member with ⟨rfl, -⟩ | ⟨rfl, -⟩ <;> decide

theorem keys_held_while_typing :
    (∃ f, new [] .default [] 0 = .ok f ∧ (f.after typing).keypad.holds 0x5 = true ∧
      (f.after (typing ++ [.check 110000001])).keypad.holds 0x5 = false ∧
      (f.after (typing ++ [.check 110000001])).quitting = true ∧
      ((f.after typing).handle ⟨.char 'c', .press, true⟩ 120000000).keypad = (f.after typing).keypad) ∧
    (⟨.char 'c', .again, false⟩ : KeyEvent).StandsFor 0xB := by
  obtain ⟨⟨f, new, law⟩, plain⟩ :=
    keys_are_held_until_a_late_check (by decide : Config.default.clockSpeed ≠ 0) [] [] 0
  obtain ⟨-, held, -, quits, lasting, still⟩ := law typing
  obtain ⟨-, heldThen, -⟩ := law (typing ++ [.check 110000001])
  refine ⟨⟨f, new, ?_, ?_, ?_, ?_⟩, ?_⟩
  · exact (held (by decide) 0x5).mpr ⟨_, _, lastPress_typing, by decide⟩
  · rw [← Bool.not_eq_true, heldThen (by decide) 0x5]
    rintro ⟨time, since, last, inTime⟩
    have known := (lastPress_other (a := .check 110000001) nofun).mpr ⟨_, rfl, lastPress_typing⟩
    obtain ⟨rfl, rfl⟩ := last.unique known
    exact absurd inTime (by decide)
  · exact lasting _ (quits.mpr ⟨⟨.char 'c', .press, true⟩, 65000000, by simp [typing], .inl ⟨rfl, rfl⟩⟩)
  · exact (still _ _ (.inl ⟨rfl, rfl⟩)).1
  · exact (plain _ rfl rfl 0xB).mpr rfl

end Front
end Chip8.Terminal
