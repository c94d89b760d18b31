import Chip8.Terminal.Paced

/-!
# The terminal program

The terminal front end in real time. Typed characters come from standard input, the screen goes to standard
output and the log to standard error. A terminal in raw mode hands over each character as it is typed; otherwise
they come line by line.
-/

namespace Chip8.Terminal

/-- What is printed when help is asked for. -/
def usageText : String := String.intercalate "\n" [
  "Terminal front-end for the CHIP-8 VM",
  "",
  "Usage: chip8 [OPTIONS] <ROM_PATH>",
  "",
  "Arguments:",
  "  <ROM_PATH>  Path to the ROM file to load",
  "",
  "Options:",
  "  -c, --clock-speed <CLOCK_SPEED>  Instructions executed per second [default: 500]",
  "      --font-offset <FONT_OFFSET>  Memory address of the built-in font [default: 80]",
  "  -h, --help                       Print help",
  "",
  "Keys 1-4, Q-R, A-F, Z-V map to CHIP-8 keys. Escape or Ctrl+C exits."]

/-- The number that chooses a colour of characters; a background is ten more. -/
def Colour.code : Colour → Nat
  | .reset => 39
  | .black => 30
  | .red => 31
  | .green => 32
  | .yellow => 33
  | .darkGray => 90
  | .white => 97

/-- The characters that choose a style. -/
def Style.sequence (s : Style) : String :=
  "\x1b[" ++ toString s.foreground.code ++ ";" ++ toString (s.background.code + 10) ++ "m"

/-- The characters that show a canvas. -/
def Canvas.sequence (c : Canvas) (width height : Nat) : String :=
  let row (cells : List Cell) := String.join (cells.map fun cell => cell.style.sequence ++ String.singleton cell.char)
  "\x1b[H" ++ String.intercalate "\r\n" ((c.rows width height).map row) ++ "\x1b[0m"

/-- Reads a file. -/
def readRom (path : String) : IO (Except FileFault Rom) := do
  try
    return .ok (← IO.FS.readBinFile path).toList
  catch
    | .noFileOrDirectory .. => return .error .notFound
    | .inappropriateType .. => return .error .isDirectory
    | e => return .error (.other (toString e))

/-- Puts what is typed into a queue until the input ends, which counts as Escape. -/
partial def listen (input : IO.FS.Stream) (queue : IO.Ref (List Char)) : IO Unit := do
  let bytes ← input.read 1
  if bytes.isEmpty then queue.modify (· ++ [Char.ofNat 27])
  else
    queue.modify (· ++ bytes.toList.map fun b => Char.ofNat b.toNat)
    listen input queue

/-- Drives a session until a time, with random bytes as they are needed. -/
partial def drive (s : Session) (stop : Nat) : IO Session := do
  let now ← IO.monoNanosNow
  if stop ≤ now then return s
  let s ← if s.machine.random.isEmpty then
      let byte := UInt8.ofNat (← IO.rand 0 255)
      pure (s.mapMachine (·.supply [byte]))
    else pure s
  drive (s.step now) stop

/-- Frame after frame until the user leaves. -/
partial def frames (f : Front) (queue : IO.Ref (List Char)) (logged width height : Nat) : IO Front := do
  let output ← IO.getStdout
  output.putStr ((f.view.draw width height).sequence width height)
  output.flush
  for e in shown (f.session.log.drop logged) do
    IO.eprintln e.line
  let logged := f.session.log.length
  let now ← IO.monoNanosNow
  let typed ← queue.modifyGet fun cs => (cs, [])
  let f := (KeyEvent.ofText typed).foldl (fun f e => f.handle e now) (f.checkTimes now)
  if f.quitting then return f
  frames { f with session := ← drive f.session (now + frameTime) } queue logged width height

/-- A size from the environment. -/
def sizeFrom (name : String) (default : Nat) : IO Nat := do
  return ((← IO.getEnv name).bind (·.toNat?)).getD default

/-- Shows the end of a front end and gives its exit code. -/
def leave (e : CommandLine.Exit) : IO UInt32 := do
  for line in e.report do
    IO.eprintln line
  return UInt32.ofNat e.code

/-- Runs a program until the user leaves. -/
def runRom (rom : Rom) (config : Config) : IO UInt32 := do
  match Front.new rom config [] (← IO.monoNanosNow) with
  | .error a => leave (.ofAborted a)
  | .ok f =>
    let queue ← IO.mkRef []
    let _ ← IO.asTask (listen (← IO.getStdin) queue) .dedicated
    let f ← frames f queue 0 (← sizeFrom "COLUMNS" 100) (← sizeFrom "LINES" 40)
    match f.shutdown (← IO.monoNanosNow) with
    | .ok _ => leave (.ofResult [] none)
    | .error e => leave (.ofFailure [] e)

/-- The terminal front end in real time, from its arguments to its exit code. -/
def runArguments (arguments : List String) : IO UInt32 := do
  match CommandLine.Options.ofArguments arguments with
  | .error .help =>
    IO.println usageText
    return 0
  | .error r => leave (.ofRefusal r)
  | .ok options =>
    let file ← readRom options.path
    match CommandLine.prepare (fun _ => file) arguments with
    | .error e => leave e
    | .ok (rom, config) => runRom rom config

end Chip8.Terminal

/-- The terminal program. -/
def main (arguments : List String) : IO UInt32 := Chip8.Terminal.runArguments arguments
