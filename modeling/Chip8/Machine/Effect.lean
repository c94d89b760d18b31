import Chip8.Instruction
import Chip8.Machine

/-!
# What instructions do

The effect of each instruction on a machine whose program counter has already gone past it. Results and
flags of arithmetic are both taken from the registers as they were, and the flag is written last.
-/

namespace Chip8

/-- A flag as the last register holds it. -/
def flag (b : Bool) : UInt8 := if b then 1 else 0

/-- The result of arithmetic on two bytes, and its flag if it has one. -/
def Arithmetic.eval : Arithmetic → UInt8 → UInt8 → UInt8 × Option UInt8
  | .copy, _, b => (b, none)
  | .or, a, b => (a ||| b, none)
  | .and, a, b => (a &&& b, none)
  | .xor, a, b => (a ^^^ b, none)
  | .add, a, b => (a + b, some (flag (a + b < a)))
  | .sub, a, b => (a - b, some (flag (b ≤ a)))
  | .shiftRight, a, _ => (a >>> 1, some (a &&& 1))
  | .subReverse, a, b => (b - a, some (flag (a ≤ b)))
  | .shiftLeft, a, _ => (a <<< 1, some (a >>> 7))

namespace Machine

/-- The address after a given one, which stays inside memory. -/
def after (a : UInt16) : UInt16 := (a + 1) % 4096

/-- Goes past the instruction at the program counter. -/
def advance (m : Machine) : Machine := { m with pc := after (after m.pc) }

/-- Goes past one more instruction if a condition holds. -/
def skipIf (m : Machine) (c : Bool) : Machine := if c then m.advance else m

/-- Puts a byte into a register. -/
def set (m : Machine) (x : Digit) (b : UInt8) : Machine := { m with v := m.v.set x.val b x.inside }

/-- Puts the outcome of arithmetic into a register, then its flag into the last one. -/
def setWithFlag (m : Machine) (x : Digit) (r : UInt8 × Option UInt8) : Machine :=
  match r.2 with
  | none => m.set x r.1
  | some f => (m.set x r.1).set 0xF f

/-- Takes the next random byte. -/
def drawRandom (m : Machine) : UInt8 × Machine :=
  match m.random with
  | [] => (0, m)
  | r :: rest => (r, { m with random := rest })

/-- Draws the rows at the index, then notes a collision in the last register. -/
def drawSprite (m : Machine) (x y n : Digit) : Machine :=
  let (display, hit) := m.display.draw (m.memory.read m.index n.val) (m.v.get x) (m.v.get y)
  { m with display }.set 0xF (flag hit)

/-- The hundreds, tens and ones of a byte. -/
def decimalDigits (b : UInt8) : List UInt8 := [b / 100, b / 10 % 10, b % 10]

/-- Does what an instruction says. An awaited key is taken if one is held. -/
def perform (m : Machine) : Instruction → Machine
  | .empty | .unknown _ => m
  | .clear => { m with display := Bitmap.blank }
  | .ret => { m with pc := m.stack.top, stack := m.stack.drop }
  | .jump nnn => { m with pc := nnn }
  | .call nnn => { m with stack := m.stack.push m.pc, pc := nnn }
  | .skipIfByte x kk => m.skipIf (m.v.get x == kk)
  | .skipUnlessByte x kk => m.skipIf (m.v.get x != kk)
  | .skipIfSame x y => m.skipIf (m.v.get x == m.v.get y)
  | .setByte x kk => m.set x kk
  | .addByte x kk => m.set x (m.v.get x + kk)
  | .arithmetic op x y => m.setWithFlag x (op.eval (m.v.get x) (m.v.get y))
  | .skipUnlessSame x y => m.skipIf (m.v.get x != m.v.get y)
  | .setIndex nnn => { m with index := nnn }
  | .jumpFrom nnn => { m with pc := (nnn + (m.v.get 0).toUInt16) % 4096 }
  | .random x kk => let (r, m) := m.drawRandom; m.set x (r &&& kk)
  | .draw x y n => m.drawSprite x y n
  | .skipIfHeld x => m.skipIf (m.keypad.isDown (m.v.get x))
  | .skipUnlessHeld x => m.skipIf (!m.keypad.isDown (m.v.get x))
  | .readDelay x => m.set x m.delay
  | .awaitKey x => m.keypad.lowest?.elim m fun k => m.set x k.toByte
  | .setDelay x => { m with delay := m.v.get x }
  | .setSound x => { m with sound := m.v.get x }
  | .addIndex x => { m with index := m.index + (m.v.get x).toUInt16 }
  | .glyph x => { m with index := m.memory.fontBase + (m.v.get x).toUInt16 * Font.glyphSize }
  | .decimal x => { m with memory := m.memory.load m.index (decimalDigits (m.v.get x)) }
  | .store x => { m with memory := m.memory.load m.index (m.v.toList.take (x.val + 1)) }
  | .fill x =>
    { m with v := Vector.ofFn fun j => if j ≤ x then m.memory.fetch (m.index + UInt16.ofNat j.val) else m.v.get j }

end Machine
end Chip8
