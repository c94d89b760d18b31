import Chip8.Proofs.Checked.Decoding
import Chip8.Proofs.Checked.Drawing
import Chip8.Proofs.Checked.Parts
import Chip8.Proofs.Effects

/-!
# Checked cycles

A cycle in which every operation has its check. For any word at all it comes to what the plain cycle comes to,
and the one check that can fail is that of the count of empty words (`execute_eq`, `cycle_eq`).
-/

namespace Chip8

namespace Machine

/-- Whether an instruction waits: for a key, while none is held and nobody asked for a stop. -/
def waitsFor (m : Machine) : Instruction → Bool
  | .awaitKey _ => m.keypad.lowest?.isNone && !m.stopping
  | _ => false

theorem wouldWait_eq (m : Machine) : m.wouldWait = m.waitsFor m.next := by
  unfold wouldWait waitsFor
  cases m.next <;> rfl

/-- What an instruction makes of a machine that can count it. -/
def attempt (m : Machine) (i : Instruction) : Machine × Outcome :=
  match i with
  | .empty =>
    ({ m.advance with emptyRow := m.emptyRow + 1 }, if emptyLimit ≤ m.emptyRow + 1 then .halted else .done)
  | i => if m.waitsFor i then (m, .waiting) else (({ m.advance with emptyRow := 0 }).perform i, .done)

end Machine

namespace Checked

/-! ## Registers -/

theorem get_register (m : Machine) (x : Digit) : get m.v x.val = .ok (m.v.get x) := get_eq m.v x.isLt

def setRegister (m : Machine) (x : Digit) (b : UInt8) : Except Fault Machine := do
  let v ← set m.v x.val b
  return { m with v }

theorem setRegister_eq (m : Machine) (x : Digit) (b : UInt8) : setRegister m x b = .ok (m.set x b) := by
  rw [setRegister, set_eq m.v x.isLt, ok_bind]
  rfl

def eval : Arithmetic → UInt8 → UInt8 → Except Fault (UInt8 × Option UInt8)
  | .shiftRight, a, _ => do return (← shiftRight8 a 1, some (a &&& 1))
  | .shiftLeft, a, _ => do return (← shiftLeft8 a 1, some (← shiftRight8 a 7))
  | op, a, b => return op.eval a b

theorem eval_eq (op : Arithmetic) (a b : UInt8) : eval op a b = .ok (op.eval a b) := by
  cases op with
  | shiftRight =>
    rw [eval, shiftRight8_eq (by decide)]
    rfl
  | shiftLeft =>
    rw [eval, shiftLeft8_eq (by decide), ok_bind, shiftRight8_eq (by decide)]
    rfl
  | _ => rfl

def setWithFlag (m : Machine) (x : Digit) (r : UInt8 × Option UInt8) : Except Fault Machine := do
  let m ← setRegister m x r.1
  match r.2 with
  | none => return m
  | some f => setRegister m 0xF f

theorem setWithFlag_eq (m : Machine) (x : Digit) (r : UInt8 × Option UInt8) :
    setWithFlag m x r = .ok (m.setWithFlag x r) := by
  rcases r with ⟨result, _ | f⟩
  · rw [setWithFlag, setRegister_eq]
    rfl
  · rw [setWithFlag, setRegister_eq, ok_bind]
    exact setRegister_eq (m.set x result) 0xF f

def fillRegister (m : Machine) (v : Vector UInt8 16) (j : Nat) : Except Fault (Vector UInt8 16) := do
  let b ← fetch m.memory (m.index + UInt16.ofNat j)
  set v j b

/-- Fills the first registers from memory. -/
def fill (m : Machine) (count : Nat) : Except Fault Machine := do
  let v ← (List.range count).foldlM (fillRegister m) m.v
  return { m with v }

/-- The registers once the first of them were filled. -/
def filled (m : Machine) (count : Nat) : Vector UInt8 16 :=
  Vector.ofFn fun j => if j.val < count then m.memory.fetch (m.index + UInt16.ofNat j.val) else m.v.get j

theorem get_filled (m : Machine) (count : Nat) (j : Fin 16) :
    (filled m count).get j = if j.val < count then m.memory.fetch (m.index + UInt16.ofNat j.val) else m.v.get j := by
  simp [filled]

theorem fillRegister_eq (m : Machine) {k : Nat} (inside : k < 16) :
    fillRegister m (filled m k) k = .ok (filled m (k + 1)) := by
  rw [fillRegister, fetch_eq, ok_bind, set_eq _ inside]
  refine congrArg Except.ok (Table.ext_get fun j => ?_)
  refine (Table.get_set (filled m k) ⟨k, inside⟩ j _ inside).trans ?_
  rw [get_filled, get_filled]
  rcases Nat.lt_trichotomy j.val k with before | here | behind
  · rw [if_neg (by rw [Fin.ext_iff]; dsimp only; omega), if_pos before, if_pos (by omega)]
  · subst here
    rw [if_pos rfl, if_pos (by omega)]
  · rw [if_neg (by rw [Fin.ext_iff]; dsimp only; omega), if_neg (by omega), if_neg (by omega)]

theorem fill_eq (m : Machine) {count : Nat} (fits : count ≤ 16) : fill m count = .ok { m with v := filled m count } := by
  have start : filled m 0 = m.v := by
    apply Table.ext_get
    intro j
    rw [get_filled, if_neg (by omega)]
  have loop := loop_eq (f := fillRegister m) (filled m) (n := count) fun k below => fillRegister_eq m (by omega)
  rw [start] at loop
  rw [fill, loop]
  rfl

/-! ## Instructions -/

def perform (m : Machine) : Instruction → Except Fault Machine
  | .empty | .unknown _ => return m
  | .clear => return { m with display := Bitmap.blank }
  | .ret => do
    let (pc, stack) ← pop m.stack
    return { m with pc, stack }
  | .jump nnn => return { m with pc := nnn }
  | .call nnn => return { m with stack := ← push m.stack m.pc, pc := nnn }
  | .skipIfByte x kk => return m.skipIf ((← get m.v x.val) == kk)
  | .skipUnlessByte x kk => return m.skipIf ((← get m.v x.val) != kk)
  | .skipIfSame x y => return m.skipIf ((← get m.v x.val) == (← get m.v y.val))
  | .setByte x kk => setRegister m x kk
  | .addByte x kk => do setRegister m x ((← get m.v x.val) + kk)
  | .arithmetic op x y => do setWithFlag m x (← eval op (← get m.v x.val) (← get m.v y.val))
  | .skipUnlessSame x y => return m.skipIf ((← get m.v x.val) != (← get m.v y.val))
  | .setIndex nnn => return { m with index := nnn }
  | .jumpFrom nnn => return { m with pc := (← add16 nnn (← get m.v 0).toUInt16) % 4096 }
  | .random x kk => let (r, m) := m.drawRandom; setRegister m x (r &&& kk)
  | .draw x y n => do
    let sprite ← read m.memory m.index n.val
    let (display, hit) ← draw m.display sprite (← get m.v x.val) (← get m.v y.val)
    setRegister { m with display } 0xF (flag hit)
  | .skipIfHeld x => return m.skipIf (← isDown m.keypad (← get m.v x.val))
  | .skipUnlessHeld x => return m.skipIf (!(← isDown m.keypad (← get m.v x.val)))
  | .readDelay x => setRegister m x m.delay
  | .awaitKey x => do
    match ← lowest? m.keypad with
    | none => return m
    | some k => setRegister m x k.toByte
  | .setDelay x => return { m with delay := ← get m.v x.val }
  | .setSound x => return { m with sound := ← get m.v x.val }
  | .addIndex x => return { m with index := m.index + (← get m.v x.val).toUInt16 }
  | .glyph x => return { m with index := m.memory.fontBase + (← mul16 (← get m.v x.val).toUInt16 Font.glyphSize) }
  | .decimal x => do
    let value ← get m.v x.val
    let memory ← write m.memory m.index (value / 100)
    let memory ← write memory (m.index + 1) (value / 10 % 10)
    let memory ← write memory (m.index + 2) (value % 10)
    return { m with memory }
  | .store x => return { m with memory := ← store m.memory m.index m.v (x.val + 1) }
  | .fill x => fill m (x.val + 1)

/-- An address of twelve bits and a byte make no more than sixteen bits. -/
theorem jumpFrom_fits {nnn : UInt16} (bound : nnn < 4096) (b : UInt8) : nnn.toNat + b.toUInt16.toNat < 65536 := by
  have address : nnn.toNat < 4096 := UInt16.lt_iff_toNat_lt.mp bound
  have byte := b.toNat_lt
  rw [UInt8.toNat_toUInt16]
  omega

/-- The last glyph that a byte can name lies within sixteen bits of the first. -/
theorem glyph_fits (b : UInt8) : b.toUInt16.toNat * Font.glyphSize.toNat < 65536 := by
  have five : Font.glyphSize.toNat = 5 := rfl
  have byte := b.toNat_lt
  rw [UInt8.toNat_toUInt16, five]
  omega

/-- An instruction that names an address inside memory is done without a failure. -/
theorem perform_eq (m : Machine) {i : Instruction} (named : ∀ a, i.address? = some a → a < 4096) :
    perform m i = .ok (m.perform i) := by
  cases i with
  | ret => rw [perform, pop_eq]; rfl
  | call nnn => rw [perform, push_eq]; rfl
  | skipIfByte x kk | skipUnlessByte x kk => rw [perform, get_register]; rfl
  | skipIfSame x y | skipUnlessSame x y => rw [perform, get_register, ok_bind, get_register]; rfl
  | setByte x kk => exact setRegister_eq m x kk
  | addByte x kk => rw [perform, get_register]; exact setRegister_eq m x _
  | arithmetic op x y =>
    rw [perform, get_register, ok_bind, get_register, ok_bind, eval_eq]
    exact setWithFlag_eq m x _
  | jumpFrom nnn =>
    rw [perform, get_eq m.v (by decide), ok_bind, add16_eq (jumpFrom_fits (named nnn rfl) _)]
    rfl
  | random x kk => exact setRegister_eq _ x _
  | draw x y n =>
    rw [perform, read_eq, ok_bind, get_register, ok_bind, get_register, ok_bind, draw_eq]
    exact setRegister_eq _ 0xF _
  | skipIfHeld x | skipUnlessHeld x => rw [perform, get_register, ok_bind, isDown_eq]; rfl
  | readDelay x => exact setRegister_eq m x m.delay
  | awaitKey x =>
    rw [perform, lowest?_eq, ok_bind, Machine.perform]
    cases m.keypad.lowest? with
    | none => rfl
    | some k => exact setRegister_eq m x k.toByte
  | setDelay x | setSound x | addIndex x => rw [perform, get_register]; rfl
  | glyph x => rw [perform, get_register, ok_bind, mul16_eq (glyph_fits _)]; rfl
  | decimal x =>
    have third : m.index + 1 + 1 = m.index + 2 := by rw [UInt16.add_assoc]; rfl
    rw [perform, get_register, ok_bind, write_eq, ok_bind, write_eq, ok_bind, write_eq, ok_bind, ← third]
    rfl
  | store x =>
    rw [perform, store_eq _ _ _ (by omega)]
    rfl
  | fill x =>
    have upTo : ∀ j : Fin 16, j.val < x.val + 1 ↔ j ≤ x := by
      intro j
      rw [Fin.le_def]
      omega
    rw [perform, fill_eq m (by omega), Machine.perform, filled]
    simp only [upTo]
  | _ => rfl

/-! ## Cycles -/

def waitsFor (m : Machine) : Instruction → Except Fault Bool
  | .awaitKey _ => do return (← lowest? m.keypad).isNone && !m.stopping
  | _ => return false

theorem waitsFor_eq (m : Machine) (i : Instruction) : waitsFor m i = .ok (m.waitsFor i) := by
  cases i with
  | awaitKey x => rw [waitsFor, lowest?_eq]; rfl
  | _ => rfl

/-- Executes a word at the program counter, whatever stands there. -/
def execute (m : Machine) (w : UInt16) : Except Fault (Machine × Outcome) := do
  match ← decode w with
  | .empty =>
    let row ← add8 m.emptyRow 1
    return ({ m.advance with emptyRow := row }, if emptyLimit ≤ row then .halted else .done)
  | i =>
    if ← waitsFor m i then return (m, .waiting)
    else return (← perform { m.advance with emptyRow := 0 } i, .done)

/-- One cycle: fetches a word and executes it. -/
def cycle (m : Machine) : Except Fault (Machine × Outcome) := do
  let high ← fetch m.memory m.pc
  let low ← fetch m.memory (Machine.after m.pc)
  execute m (high.toUInt16 <<< 8 ||| low.toUInt16)

/-- A word has no result only if it is one empty word more than can be counted. -/
theorem execute_eq (m : Machine) (w : UInt16) :
    execute m w = if w = 0 ∧ m.emptyRow = 255 then .error .overflow else .ok (m.attempt (Instruction.decode w)) := by
  rw [execute, decode_eq, ok_bind]
  by_cases isEmpty : w = 0
  · have empty := (Instruction.decode_eq_empty_iff w).mpr isEmpty
    rw [empty]
    by_cases full : m.emptyRow = 255
    · rw [if_pos ⟨isEmpty, full⟩, full]
      rfl
    · have room : m.emptyRow.toNat + (1 : UInt8).toNat < 256 := by
        have fewer := Machine.toNat_emptyRow_lt full
        simp only [UInt8.reduceToNat]
        omega
      rw [if_neg fun both => full both.2]
      simp only [add8_eq room]
      rfl
  · have other : Instruction.decode w ≠ .empty := fun empty => isEmpty ((Instruction.decode_eq_empty_iff w).mp empty)
    rw [if_neg fun both => isEmpty both.1]
    split
    case h_1 empty => exact absurd empty other
    case h_2 =>
      rw [waitsFor_eq, ok_bind, perform_eq _ fun a => Instruction.address_lt, Machine.attempt]
      · cases m.waitsFor (Instruction.decode w) <;> rfl
      · exact other

theorem cycle_eq_execute (m : Machine) : cycle m = execute m (m.wordAt m.pc) := by
  rw [cycle, fetch_eq, ok_bind, fetch_eq]
  rfl

/-- A cycle has a result unless the count of empty words overflows, and then it is that of the plain cycle. -/
theorem cycle_eq (m : Machine) :
    cycle m = if m.cycle.outcome = .overflow then .error .overflow else .ok (m.cycle.machine, m.cycle.outcome) := by
  have empty := m.next_eq_empty_iff
  have waits := m.wouldWait_eq
  rw [cycle_eq_execute, execute_eq, ← Machine.next]
  rcases m.cycle_cases with ⟨isEmpty, full, eq⟩ | ⟨isEmpty, room, eq⟩ | ⟨other, waiting, eq⟩ | ⟨other, goes, eq⟩
  · rw [if_pos ⟨empty.mp isEmpty, full⟩, eq]
    rfl
  · rw [if_neg fun both => room both.2, eq, isEmpty, Machine.attempt]
    dsimp only
    split <;> rfl
  · rw [if_neg fun both => other (empty.mpr both.1), eq, Machine.attempt, ← waits, waiting]
    · rfl
    · exact other
  · rw [if_neg fun both => other (empty.mpr both.1), eq, Machine.attempt, ← waits, goes]
    · rfl
    · exact other

end Checked
end Chip8
