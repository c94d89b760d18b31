import Chip8.CommandLine.Number
import Chip8.Config
import Chip8.Text.Plain

/-!
# Arguments

What the arguments of a front end choose. A value is first set aside and read when the next argument has
been recognised, so that an unknown argument is found before a bad value in front of it.
-/

namespace Chip8.CommandLine

/-- A choice that an argument can make. -/
inductive Setting
  | clock
  | font
deriving DecidableEq, Repr

namespace Setting

/-- The name of a setting behind two dashes. -/
def name : Setting → String
  | .clock => "clock-speed"
  | .font => "font-offset"

/-- How a setting is shown with its value. -/
def usage : Setting → String
  | .clock => "--clock-speed <CLOCK_SPEED>"
  | .font => "--font-offset <FONT_OFFSET>"

/-- The setting with a name. -/
def ofName? (name : String) : Option Setting := [Setting.clock, .font].find? (·.name = name)

end Setting

/-- How the path of the program is shown. -/
def pathUsage : String := "<ROM_PATH>"

/-- Why the arguments are not acted on. -/
inductive Refusal
  /-- There is no path of a program. -/
  | noPath
  /-- An argument is not known, or is one path too many. -/
  | unknown (argument : String)
  /-- A setting is made twice. -/
  | repeated (setting : Setting)
  /-- A setting has no value. -/
  | noValue (setting : Setting)
  /-- The path of the program is empty. -/
  | emptyPath
  /-- A value was given to the request for help. -/
  | helpValue (value : String)
  /-- The value of a setting cannot be read. -/
  | badValue (setting : Setting) (value : String) (reason : String)
  /-- Help was asked for. -/
  | help
deriving DecidableEq, Repr

/-- The wording of a refusal. What the user wrote is shown as plain text. -/
def Refusal.message (i : Text.Interruption) : Refusal → String
  | .noPath => "the following required arguments were not provided:"
  | .unknown argument => "unexpected argument '" ++ Text.plain i argument ++ "' found"
  | .repeated s => "the argument '" ++ s.usage ++ "' cannot be used multiple times"
  | .noValue s => "a value is required for '" ++ s.usage ++ "' but none was supplied"
  | .emptyPath => "a value is required for '" ++ pathUsage ++ "' but none was supplied"
  | .helpValue value => "unexpected value '" ++ Text.plain i value ++ "' for '--help' found; no more were expected"
  | .badValue s value reason => "invalid value '" ++ Text.plain i value ++ "' for '" ++ s.usage ++ "': " ++ reason
  | .help => ""

/-- The first of the lines of a text, of which a line feed ends each, alone or behind a carriage return. -/
def firstLine : List Char → List Char
  | [] => []
  | '\n' :: _ | '\r' :: '\n' :: _ => []
  | c :: rest => c :: firstLine rest

/-- The first line of the report of a refusal. -/
def Refusal.headline (i : Text.Interruption) (r : Refusal) : String :=
  "error: " ++ String.ofList (firstLine (r.message i).toList)

/-- What the arguments choose. -/
structure Options where
  path : String
  config : Config
deriving DecidableEq, Repr

/-- A value that was set aside. -/
inductive Pending
  | nothing
  /-- A setting, with its value as soon as that has come. -/
  | setting (s : Setting) (value : Option String)
  | path (value : String)
deriving DecidableEq, Repr

/-- What is known after some of the arguments. -/
structure Progress where
  clock : Option UInt32
  font : Option UInt16
  path : Option String
  /-- Whether a path was met. -/
  pathMet : Bool
  /-- Whether only paths can follow. -/
  onlyPaths : Bool
  pending : Pending
deriving DecidableEq, Repr

namespace Progress

/-- What is known before the first argument. -/
def start : Progress := ⟨none, none, none, false, false, .nothing⟩

/-- Reads a clock speed. -/
def readClock (value : String) : Except String UInt32 :=
  match Number.signed value.toList with
  | .error e => .error e.message
  | .ok n => if 0 ≤ n ∧ n < 4294967296 then .ok (UInt32.ofNat n.toNat) else .error (toString n ++ " is not in 0..=4294967295")

/-- Reads a font address, in hexadecimal behind its marker, else in decimal. -/
def readFont (value : String) : Except String UInt16 :=
  let number := match value.toList with
    | '0' :: 'x' :: rest | '0' :: 'X' :: rest => Number.unsigned 16 65535 rest
    | cs => Number.unsigned 10 65535 cs
  match number with
  | .error e => .error e.message
  | .ok n => .ok (UInt16.ofNat n)

/-- Makes a setting, once. -/
def assign (p : Progress) (s : Setting) (value : String) : Except Refusal Progress :=
  match s with
  | .clock =>
    if p.clock.isSome then .error (.repeated s)
    else match readClock value with
      | .ok n => .ok { p with clock := some n }
      | .error reason => .error (.badValue s value reason)
  | .font =>
    if p.font.isSome then .error (.repeated s)
    else match readFont value with
      | .ok n => .ok { p with font := some n }
      | .error reason => .error (.badValue s value reason)

/-- Reads the value that was set aside. -/
def settle (p : Progress) : Except Refusal Progress :=
  let q := { p with pending := .nothing }
  match p.pending with
  | .nothing => .ok q
  | .setting s none => .error (.noValue s)
  | .setting s (some value) => q.assign s value
  | .path value => if value = "" then .error .emptyPath else .ok { q with path := some value }

/-- Takes the name of a setting, perhaps with its value. -/
def setting (p : Progress) (s : Setting) (value : Option String) : Except Refusal Progress := do
  let q ← p.settle
  match value with
  | some v => q.assign s v
  | none => .ok { q with pending := .setting s none }

/-- Takes a path. -/
def addPath (p : Progress) (value : String) : Except Refusal Progress := do
  if p.pathMet then .error (.unknown value)
  else return { ← p.settle with pathMet := true, pending := .path value }

/-- Answers the request for help. -/
def help (p : Progress) : Except Refusal Progress := do
  let _ ← p.settle
  .error .help

/-- Takes an argument behind two dashes. -/
def long (p : Progress) (argument : List Char) : Except Refusal Progress :=
  let name := String.ofList (argument.takeWhile (· ≠ '='))
  let value := match argument.dropWhile (· ≠ '=') with
    | [] => none
    | _ :: rest => some (String.ofList rest)
  match Setting.ofName? name, value with
  | some s, value => p.setting s value
  | none, none => if name = "help" then p.help else .error (.unknown ("--" ++ name))
  | none, some v => if name = "help" then .error (.helpValue v) else .error (.unknown ("--" ++ name))

/-- Takes an argument behind one dash, by its first letter. -/
def short (p : Progress) (letter : Char) (rest : List Char) : Except Refusal Progress :=
  match letter, rest with
  | 'c', [] => p.setting .clock none
  | 'c', '=' :: value => p.setting .clock (some (String.ofList value))
  | 'c', value => p.setting .clock (some (String.ofList value))
  | 'h', _ => p.help
  | letter, _ => .error (.unknown (String.ofList ['-', letter]))

/-- Takes an argument that stands without a dash. -/
def plain (p : Progress) (argument : String) : Except Refusal Progress :=
  match p.pending with
  | .setting s none => .ok { p with pending := .setting s (some argument) }
  | _ => p.addPath argument

/-- Takes the next argument. -/
def take (p : Progress) (argument : String) : Except Refusal Progress :=
  if p.onlyPaths then p.addPath argument
  else match argument.toList with
    | ['-', '-'] => .ok { p with onlyPaths := true }
    | '-' :: '-' :: rest => p.long rest
    | '-' :: letter :: rest => p.short letter rest
    | _ => p.plain argument

/-- What was chosen, after the last argument. -/
def result (p : Progress) : Except Refusal Options := do
  let q ← p.settle
  match q.path with
  | none => .error .noPath
  | some path => .ok ⟨path, ⟨q.clock.getD defaultClock, q.font.getD Font.defaultBase⟩⟩

end Progress

/-- What arguments choose. -/
def Options.ofArguments (arguments : List String) : Except Refusal Options := do
  (← arguments.foldlM Progress.take Progress.start).result

end Chip8.CommandLine
