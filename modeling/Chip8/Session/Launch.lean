import Chip8.Failure
import Chip8.Session

/-!
# Launching

How a front end puts a program into a machine and begins to run it.
-/

namespace Chip8

/-- Loads a program and begins to run it at a time. -/
def Session.launch (rom : Rom) (config : Config) (random : List UInt8) (now : Nat) : Except Aborted Session :=
  let loaded := Event.loaded rom.length
  let launched : Except Failure Session := do
    let m := (Machine.fresh config random).load rom
    let ready ← Attempt.makeSession.guard (Session.new m config.clockSpeed #[loaded])
    Attempt.beginRun.guard (ready.begin now)
  launched.mapError (⟨·, [loaded]⟩)

end Chip8
