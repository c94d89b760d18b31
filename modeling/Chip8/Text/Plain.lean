/-!
# Plain text

Text without what a terminal would act on. Nothing is left of a control sequence, even of one that is not
complete, and of the controls outside a sequence only the white space is left. White space also shows inside a
sequence, which it interrupts: the sequence is dropped, or it is resumed behind the characters that are shown.

Sequences are made of bytes, so a character beyond ASCII counts as its bytes in UTF-8.
-/

namespace Chip8.Text

/-- What becomes of a sequence that white space interrupts. -/
inductive Interruption
  | dropped
  | resumed
deriving DecidableEq, Repr

/-- Where in a control sequence a text is. -/
inductive Control
  /-- Outside of every sequence. -/
  | none
  /-- Behind the escape character, which begins every sequence. -/
  | opened
  /-- In a sequence that one more character decides. -/
  | undecided
  /-- Among the parameters of a sequence, which a letter ends. -/
  | parameters
  /-- In a command to the system, which a bell ends. -/
  | command
  /-- At the head of a string for the device. -/
  | head
  /-- Among the parameters of a string for the device. -/
  | headParameters
  /-- In the head of a string for the device, behind its parameters. -/
  | headEnd
  /-- In a string that the byte of its terminator ends. -/
  | string
deriving DecidableEq, Repr

namespace Control

/-- The byte that ends a string. -/
def terminator : UInt8 := 0x9C

/-- The controls that are white space. -/
def isBlank (c : Char) : Bool := c = '\t' || c = '\n' || c = '\x0c' || c = '\r'

/-- Whether a character shows outside of every sequence. -/
def isShown (c : Char) : Bool := isBlank c || (0x20 ≤ c.toNat && c.toNat ≠ 0x7F)

/-- Whether white space shows in a sequence. -/
def showsBlanks : Control → Bool
  | .opened | .undecided | .parameters => true
  | _ => false

/-- What a visible character behind the escape character begins. -/
def opening (c : Char) : Control :=
  if c.toNat < 0x30 then .undecided
  else if c = '[' then .parameters
  else if c = ']' then .command
  else if c = 'P' then .head
  else if c = 'X' ∨ c = '^' ∨ c = '_' then .string
  else .none

/-- Where a visible character leads. A string for the device has a head, which its first letter ends; a head that is not
well formed is part of the string. -/
def afterVisible (c : Char) : Control → Control
  | .none => .none
  | .opened => opening c
  | .undecided => if c.toNat < 0x30 then .undecided else .none
  | .parameters => if c.toNat < 0x40 then .parameters else .none
  | .command => .command
  | .head => if c.toNat < 0x30 then .headEnd else if c.toNat < 0x40 then .headParameters else .string
  | .headParameters => if c.toNat < 0x30 then .headEnd else if c.toNat < 0x3C then .headParameters else .string
  | .headEnd => if c.toNat < 0x30 then .headEnd else .string
  | .string => .string

/-- Where a character beyond ASCII leads, by its bytes. -/
def afterWide (c : Char) : Control → Control
  | .string => if terminator ∈ String.utf8EncodeChar c then .none else .string
  | s => s

/-- Where a character that is not shown leads. -/
def next (c : Char) (s : Control) : Control :=
  let n := c.toNat
  if n = 0x18 ∨ n = 0x1A then .none
  else if n = 0x1B then .opened
  else if n < 0x20 then if s = .command ∧ n = 0x07 then .none else s
  else if n < 0x7F then s.afterVisible c
  else if n = 0x7F then s
  else s.afterWide c

end Control

/-- How far a text was read. -/
structure Reading where
  control : Control
  /-- The sequence that is resumed behind the characters that are shown. -/
  interrupted : Control
deriving DecidableEq, Repr

namespace Reading

/-- Nothing was read. -/
def start : Reading := ⟨.none, .none⟩

/-- Reads a character, and tells whether it is shown. A shown character beyond ASCII ends what was interrupted. -/
def next (i : Interruption) (r : Reading) (c : Char) : Reading × Bool :=
  if r.control = .none then
    if Control.isShown c then (⟨.none, if c.toNat < 0x80 then r.interrupted else .none⟩, true)
    else (⟨r.interrupted.next c, .none⟩, false)
  else if r.control.showsBlanks && Control.isBlank c then
    (⟨.none, if i = .resumed then r.control else .none⟩, true)
  else (⟨r.control.next c, .none⟩, false)

end Reading

/-- What is shown of the characters behind those that were read. -/
def strip (i : Interruption) : Reading → List Char → List Char
  | _, [] => []
  | r, c :: rest =>
    match r.next i c with
    | (q, true) => c :: strip i q rest
    | (q, false) => strip i q rest

/-- What is shown of a text. -/
def plain (i : Interruption) (s : String) : String := String.ofList (strip i .start s.toList)

/-- Text that shows outside of every sequence is left as it is. -/
theorem strip_start_of_shown {i : Interruption} {cs : List Char} (shown : ∀ c ∈ cs, Control.isShown c = true) :
    strip i .start cs = cs := by
  induction cs with
  | nil => rfl
  | cons c rest ih =>
    have next_eq : Reading.start.next i c = (.start, true) := by
      simp [Reading.next, Reading.start, shown c (by simp)]
    simp [strip, next_eq, ih fun d hd => shown d (by simp [hd])]

end Chip8.Text
