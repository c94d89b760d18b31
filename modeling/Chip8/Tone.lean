/-!
# The tone

A player that listens to a machine every now and then and plays a tone while the sound timer runs. Between
any two of its steps the machine may go on. It plays nothing before its first look and after its last one.
-/

namespace Chip8.Tone

/-- The pitch of the tone in hertz. -/
def pitch : Nat := 440

/-- The peak of the tone in tenths of the full scale. -/
def peakTenths : Nat := 5

/-- Where in its round a player is. -/
inductive Stage
  /-- It is about to look whether the machine runs. -/
  | checking
  /-- The machine ran, and the player is about to look at the sound timer. -/
  | listening
  /-- It has seen whether the sound timer ran, and is about to play or to fall silent. -/
  | heard (sounding : Bool)
  /-- The machine has stopped. -/
  | closing
  /-- The player is done. -/
  | gone
deriving DecidableEq, Repr

/-- A player and whether it plays. -/
structure Player where
  stage : Stage
  playing : Bool
deriving DecidableEq, Repr

namespace Player

/-- A player before its first look. -/
def start : Player := ⟨.checking, false⟩

/-- One step, during which the machine runs or not and sounds or not. -/
def step (p : Player) (running sounding : Bool) : Player :=
  match p.stage with
  | .checking => { p with stage := if running then .listening else .closing }
  | .listening => { p with stage := .heard sounding }
  | .heard sounding => ⟨.checking, sounding⟩
  | .closing => ⟨.gone, false⟩
  | .gone => p

end Player
end Chip8.Tone
