import Chip8.Instruction.Decode
import Chip8.Machine.Effect

/-!
# The cycle

One cycle takes the instruction at the program counter and does what it says. A cycle that awaits a key may
have to wait, and then nothing has changed. Empty words in a row make a machine halt, which is an
outcome like another: it can go on.
-/

namespace Chip8

/-- How a cycle came out. -/
inductive Outcome
  /-- The instruction was done. -/
  | done
  /-- The instruction was done, and it was one empty word in a row too many. -/
  | halted
  /-- The instruction awaits a key and was not done. -/
  | waiting
  /-- The row of empty words can no longer be counted. -/
  | overflow
deriving DecidableEq, Repr

/-- The machine after a cycle, how it came out, and what there is to report. -/
structure Cycle where
  machine : Machine
  outcome : Outcome
  note : Option Event

namespace Machine

/-- The word at an address and the one after it. -/
def wordAt (m : Machine) (a : UInt16) : UInt16 :=
  (m.memory.fetch a).toUInt16 <<< 8 ||| (m.memory.fetch (after a)).toUInt16

/-- The instruction that comes next. -/
def next (m : Machine) : Instruction := Instruction.decode (m.wordAt m.pc)

/-- Whether the next cycle would wait: for a key, while none is held and nobody asked for a stop. -/
def wouldWait (m : Machine) : Bool :=
  match m.next with
  | .awaitKey _ => m.keypad.lowest?.isNone && !m.stopping
  | _ => false

/-- The cycle of an empty word. -/
def cycleEmpty (m : Machine) : Cycle :=
  if m.emptyRow = 255 then ⟨m, .overflow, none⟩
  else
    let row := m.emptyRow + 1
    ⟨{ m.advance with emptyRow := row }, if emptyLimit ≤ row then .halted else .done, some (.emptyWord m.pc row)⟩

/-- One cycle. -/
def cycle (m : Machine) : Cycle :=
  match m.next with
  | .empty => m.cycleEmpty
  | i =>
    if m.wouldWait then ⟨m, .waiting, none⟩
    else
      let note := match i with
        | .unknown word => some (.unknownWord word m.pc)
        | _ => none
      ⟨({ m.advance with emptyRow := 0 }).perform i, .done, note⟩

end Machine
end Chip8
