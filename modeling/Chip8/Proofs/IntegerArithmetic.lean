import Chip8.Proofs.Footprint

/-!
# Arithmetic in integers

A byte stands for a number below 256. What arithmetic on two bytes comes to is said in integers (`Arithmetic.number`),
and so is when it sets the flag, if it has one (`Arithmetic.flag?`). A word `8xyN` leaves just that in the registers
(`Machine.cycle_of_arithmetic`), whichever of them it reads and writes.
-/

namespace Chip8

namespace Arithmetic

/-- What arithmetic on two numbers comes to, as far as a byte can hold it. -/
def number : Arithmetic → Nat → Nat → Int
  | .copy, _, b => b
  | .or, a, b => (a ||| b : Nat)
  | .and, a, b => (a &&& b : Nat)
  | .xor, a, b => (a ^^^ b : Nat)
  | .add, a, b => ((a : Int) + b) % 256
  | .sub, a, b => ((a : Int) - b) % 256
  | .shiftRight, a, _ => (a : Int) / 2
  | .subReverse, a, b => ((b : Int) - a) % 256
  | .shiftLeft, a, _ => 2 * (a : Int) % 256

/-- Whether arithmetic on two numbers sets the flag. Four operations have none. -/
def flag? : Arithmetic → Nat → Nat → Option Bool
  | .copy, _, _ | .or, _, _ | .and, _, _ | .xor, _, _ => none
  | .add, a, b => some (a + b > 255)
  | .sub, a, b => some (a ≥ b)
  | .shiftRight, a, _ => some (a % 2 = 1)
  | .subReverse, a, b => some (b ≥ a)
  | .shiftLeft, a, _ => some (a ≥ 128)

theorem toNat_flag (b : Bool) : (flag b).toNat = if b then 1 else 0 := by
  cases b <;> rfl

theorem number_eval (op : Arithmetic) (a b : UInt8) :
    ((op.eval a b).1.toNat : Int) = op.number a.toNat b.toNat := by
  have aBelow := a.toNat_lt
  have bBelow := b.toNat_lt
  cases op with
  | copy => rfl
  | or => simp [eval, number]
  | and => simp [eval, number]
  | xor => simp [eval, number]
  | add => simp [eval, number]
  | sub =>
    simp only [eval, number, UInt8.toNat_sub]
    omega
  | shiftRight => simp [eval, number, Nat.shiftRight_eq_div_pow]
  | subReverse =>
    simp only [eval, number, UInt8.toNat_sub]
    omega
  | shiftLeft =>
    have doubled : (a <<< 1).toNat = 2 * a.toNat % 256 := by
      simp [Nat.shiftLeft_eq, Nat.mul_comm]
    simp only [eval, number, doubled]
    omega

theorem flag_eval (op : Arithmetic) (a b : UInt8) :
    (op.eval a b).2.map UInt8.toNat = (op.flag? a.toNat b.toNat).map fun set => if set then 1 else 0 := by
  have aBelow := a.toNat_lt
  have bBelow := b.toNat_lt
  cases op with
  | copy | or | and | xor => rfl
  | add =>
    -- A sum that a byte cannot hold comes out below either number.
    have carries : a + b < a ↔ a.toNat + b.toNat > 255 := by
      rw [UInt8.lt_iff_toNat_lt, UInt8.toNat_add]
      omega
    simp [eval, flag?, toNat_flag, carries]
  | sub => simp [eval, flag?, toNat_flag, UInt8.le_iff_toNat_le]
  | shiftRight =>
    have lowest : a.toNat % 2 = if a.toNat % 2 = 1 then 1 else 0 := by
      split <;> omega
    simpa [eval, flag?] using lowest
  | subReverse => simp [eval, flag?, toNat_flag, UInt8.le_iff_toNat_le]
  | shiftLeft =>
    have highest : a.toNat / 128 = if 128 ≤ a.toNat then 1 else 0 := by
      split <;> omega
    simpa [eval, flag?, Nat.shiftRight_eq_div_pow] using highest

end Arithmetic

namespace Machine
open Word Instruction

variable {m : Machine} {op : Arithmetic} {r k : Digit} {a b : UInt8}

theorem flagless_eval (flagless : op.flag? a.toNat b.toNat = none) : (op.eval a b).2 = none := by
  simpa [flagless] using op.flag_eval a b

theorem flag_registersAfter {set : Bool} (flagged : op.flag? a.toNat b.toNat = some set) :
    ((m.registersAfter r (op.eval a b)).get 0xF).toNat = if set then 1 else 0 := by
  have flags := op.flag_eval a b
  rw [flagged] at flags
  obtain ⟨f, isFlag, value⟩ := Option.map_eq_some_iff.mp flags
  -- The flag is put there last, over a result if there is one.
  rw [get_registersAfter, if_pos rfl, isFlag]
  exact value

theorem result_registersAfter (room : r ≠ 0xF ∨ op.flag? a.toNat b.toNat = none) :
    (((m.registersAfter r (op.eval a b)).get r).toNat : Int) = op.number a.toNat b.toNat := by
  rw [← Arithmetic.number_eval, get_registersAfter]
  rcases room with notLast | flagless
  · simp [notLast]
  · simp [flagless_eval flagless]

theorem other_registersAfter (other : k ≠ r) (room : k ≠ 0xF ∨ op.flag? a.toNat b.toNat = none) :
    (m.registersAfter r (op.eval a b)).get k = m.v.get k := by
  rw [get_registersAfter, if_neg other.symm]
  rcases room with notLast | flagless
  · simp [notLast]
  · simp [flagless_eval flagless]

theorem cycle_of_arithmetic (first : head (m.wordAt m.pc) = 0x8) (last : (n (m.wordAt m.pc)).val = op.code.toNat) :
    m.cycle.outcome = .done ∧ m.cycle.machine.v = m.registersAfter (x (m.wordAt m.pc))
      (op.eval (m.v.get (x (m.wordAt m.pc))) (m.v.get (y (m.wordAt m.pc)))) := by
  have fits : Fits (m.wordAt m.pc) (.arithmetic op (x (m.wordAt m.pc)) (y (m.wordAt m.pc))) :=
    ⟨first, last.symm, rfl, rfl⟩
  obtain ⟨done, machine⟩ := cycle_of_fits fits (by simp) (by simp)
  refine ⟨done, ?_⟩
  rw [machine, perform_eq]
  rfl

/-- Arithmetic agrees with the integers, whatever the registers hold and whichever of them it reads and writes. The
flag is in the last register, also where the result should have gone there; else the result is in the register `x`.
All other registers are as they were, and so is the last one if there is no flag. Result and flag are both told from
what the registers held before. -/
theorem arithmetic_agrees_with_integers (m : Machine) (op : Arithmetic) (first : head (m.wordAt m.pc) = 0x8)
    (last : (n (m.wordAt m.pc)).val = op.code.toNat) :
    let r := x (m.wordAt m.pc)
    let a := (m.v.get r).toNat
    let b := (m.v.get (y (m.wordAt m.pc))).toNat
    let v := m.cycle.machine.v
    m.cycle.outcome = .done ∧
    (∀ set, op.flag? a b = some set → (v.get 0xF).toNat = if set then 1 else 0) ∧
    (r ≠ 0xF ∨ op.flag? a b = none → ((v.get r).toNat : Int) = op.number a b) ∧
    ∀ k, k ≠ r → k ≠ 0xF ∨ op.flag? a b = none → v.get k = m.v.get k := by
  intro r a b v
  obtain ⟨done, registers⟩ : _ ∧ v = _ := cycle_of_arithmetic first last
  refine ⟨done, ?_, ?_, ?_⟩
  · intro set flagged
    rw [registers]
    exact flag_registersAfter flagged
  · intro room
    rw [registers]
    exact result_registersAfter room
  · intro k other room
    rw [registers]
    exact other_registersAfter other room

/-- A machine that adds to its last register what is more than it can hold. -/
def addingToLast : Machine :=
  { ((fresh .default []).set 0xE 100).set 0xF 200 with memory := (Memory.fresh 0x50).load programStart [0x8F, 0xE4] }

theorem arithmetic_of_addingToLast :
    addingToLast.wordAt addingToLast.pc = 0x8FE4 ∧ addingToLast.cycle.outcome = .done ∧
      (addingToLast.cycle.machine.v.get 0xF).toNat = 1 ∧ addingToLast.cycle.machine.v.get 0xE = 100 := by
  have word : addingToLast.wordAt addingToLast.pc = 0x8FE4 := by decide +kernel
  have agrees := arithmetic_agrees_with_integers addingToLast .add (by rw [word]; rfl) (by rw [word]; rfl)
  rw [word] at agrees
  obtain ⟨done, flagged, -, kept⟩ := agrees
  have carries : Arithmetic.flag? .add (addingToLast.v.get 0xF).toNat (addingToLast.v.get 0xE).toNat = some true := by
    decide +kernel
  refine ⟨word, done, flagged true carries, ?_⟩
  rw [kept 0xE (by decide) (.inl (by decide))]
  decide +kernel

end Machine
end Chip8
