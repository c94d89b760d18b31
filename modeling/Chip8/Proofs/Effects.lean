import Chip8.Machine.Cycle
import Chip8.Proofs.Forms

/-!
# The effects of a cycle

What a cycle does to each part of a machine. An instruction is an update of single fields, one by one
(`perform_eq`), and a cycle comes out in one of four ways (`cycle_cases`).
-/

namespace Chip8

/-! ## Addresses -/

namespace Machine

theorem toNat_after (a : UInt16) : (after a).toNat = (a.toNat + 1) % 4096 := by
  have bound := a.toNat_lt
  simp only [after, UInt16.toNat_mod, UInt16.toNat_add, UInt16.reduceToNat]
  omega

theorem after_lt (a : UInt16) : after a < 4096 := UInt16.mod_lt _ (by decide)

/-- Two steps go two addresses on, modulo the size of memory. -/
theorem after_after (a : UInt16) : after (after a) = (a + 2) % 4096 := by
  apply UInt16.toNat_inj.mp
  have bound := a.toNat_lt
  simp only [toNat_after, UInt16.toNat_mod, UInt16.toNat_add, UInt16.reduceToNat]
  omega

end Machine

namespace Instruction

/-- The address that an instruction names. -/
def address? : Instruction → Option UInt16
  | .jump nnn | .call nnn | .setIndex nnn | .jumpFrom nnn => some nnn
  | _ => none

/-- A word names addresses of twelve bits only. -/
theorem address_lt {w a : UInt16} (named : (decode w).address? = some a) : a < 4096 := by
  cases found : decode w with
  | jump nnn | call nnn | setIndex nnn | jumpFrom nnn =>
    have fits := fits_of_decode found (by simp)
    rw [found] at named
    cases named
    rw [fits.2]
    exact Word.nnn_lt w
  | _ =>
    rw [found] at named
    cases named

/-- Only the word of zeros is the empty instruction. -/
theorem decode_eq_empty_iff (w : UInt16) : decode w = .empty ↔ w = 0 :=
  ⟨fun isEmpty => fits_of_decode isEmpty (by simp), fun zero => decode_of_fits zero⟩

end Instruction

namespace Machine

/-! ## Steps of an instruction as updates -/

theorem skipIf_eq (m : Machine) (c : Bool) : m.skipIf c = { m with pc := if c then after (after m.pc) else m.pc } := by
  cases c <;> rfl

/-- The registers after arithmetic: the result first, then the flag over it. -/
def registersAfter (m : Machine) (x : Digit) (r : UInt8 × Option UInt8) : Vector UInt8 16 :=
  match r.2 with
  | none => m.v.set x.val r.1 x.inside
  | some f => (m.v.set x.val r.1 x.inside).set (0xF : Digit).val f (Digit.inside 0xF)

theorem setWithFlag_eq (m : Machine) (x : Digit) (r : UInt8 × Option UInt8) :
    m.setWithFlag x r = { m with v := m.registersAfter x r } := by
  rcases r with ⟨result, _ | f⟩ <;> rfl

theorem drawRandom_eq (m : Machine) :
    m.drawRandom = (m.random.headD 0, { m with random := m.random.tail }) := by
  rcases m with ⟨_, _, _, _, _, _, _, _, _, _, _, _ | ⟨r, rest⟩⟩ <;> rfl

theorem awaitKey_eq (m : Machine) (x : Digit) :
    m.perform (.awaitKey x) = { m with v := m.keypad.lowest?.elim m.v fun k => m.v.set x.val k.toByte x.inside } := by
  cases lowest : m.keypad.lowest? <;> simp [perform, set, lowest]

/-! ## The fields behind an instruction -/

/-- Whether an instruction skips the one behind it. -/
def skips (m : Machine) : Instruction → Bool
  | .skipIfByte x kk => m.v.get x == kk
  | .skipUnlessByte x kk => m.v.get x != kk
  | .skipIfSame x y => m.v.get x == m.v.get y
  | .skipUnlessSame x y => m.v.get x != m.v.get y
  | .skipIfHeld x => m.keypad.isDown (m.v.get x)
  | .skipUnlessHeld x => !m.keypad.isDown (m.v.get x)
  | _ => false

/-- The display with the rows at the index drawn at given coordinates, and whether they collide. -/
def drawn (m : Machine) (x y n : Digit) : Bitmap × Bool :=
  m.display.draw (m.memory.read m.index n.val) (m.v.get x) (m.v.get y)

def memoryAfter (m : Machine) : Instruction → Memory
  | .decimal x => m.memory.load m.index (decimalDigits (m.v.get x))
  | .store x => m.memory.load m.index (m.v.toList.take (x.val + 1))
  | _ => m.memory

def stackAfter (m : Machine) : Instruction → CallStack
  | .call _ => m.stack.push m.pc
  | .ret => m.stack.drop
  | _ => m.stack

def displayAfter (m : Machine) : Instruction → Bitmap
  | .clear => .blank
  | .draw x y n => (m.drawn x y n).1
  | _ => m.display

def pcAfter (m : Machine) : Instruction → UInt16
  | .ret => m.stack.top
  | .jump nnn | .call nnn => nnn
  | .jumpFrom nnn => (nnn + (m.v.get 0).toUInt16) % 4096
  | i => if m.skips i then after (after m.pc) else m.pc

def indexAfter (m : Machine) : Instruction → UInt16
  | .setIndex nnn => nnn
  | .addIndex x => m.index + (m.v.get x).toUInt16
  | .glyph x => m.memory.fontBase + (m.v.get x).toUInt16 * Font.glyphSize
  | _ => m.index

def vAfter (m : Machine) : Instruction → Vector UInt8 16
  | .setByte x kk => m.v.set x.val kk x.inside
  | .addByte x kk => m.v.set x.val (m.v.get x + kk) x.inside
  | .arithmetic op x y => m.registersAfter x (op.eval (m.v.get x) (m.v.get y))
  | .random x kk => m.v.set x.val (m.random.headD 0 &&& kk) x.inside
  | .draw x y n => m.v.set (0xF : Digit).val (flag (m.drawn x y n).2) (Digit.inside 0xF)
  | .readDelay x => m.v.set x.val m.delay x.inside
  | .awaitKey x => m.keypad.lowest?.elim m.v fun k => m.v.set x.val k.toByte x.inside
  | .fill x => Vector.ofFn fun j => if j ≤ x then m.memory.fetch (m.index + UInt16.ofNat j.val) else m.v.get j
  | _ => m.v

def delayAfter (m : Machine) : Instruction → UInt8
  | .setDelay x => m.v.get x
  | _ => m.delay

def soundAfter (m : Machine) : Instruction → UInt8
  | .setSound x => m.v.get x
  | _ => m.sound

def randomAfter (m : Machine) : Instruction → List UInt8
  | .random _ _ => m.random.tail
  | _ => m.random

/-- All that an instruction does, field by field. The other fields it leaves alone. -/
theorem perform_eq (m : Machine) (i : Instruction) :
    m.perform i = { m with
      memory := m.memoryAfter i, stack := m.stackAfter i, display := m.displayAfter i, pc := m.pcAfter i,
      index := m.indexAfter i, v := m.vAfter i, delay := m.delayAfter i, sound := m.soundAfter i,
      random := m.randomAfter i } := by
  cases i with
  | awaitKey x => rw [awaitKey_eq]; rfl
  | arithmetic op x y => rw [perform, setWithFlag_eq]; rfl
  | random x kk => rw [perform, drawRandom_eq]; rfl
  | skipIfByte x kk | skipUnlessByte x kk => rw [perform, skipIf_eq]; rfl
  | skipIfSame x y | skipUnlessSame x y => rw [perform, skipIf_eq]; rfl
  | skipIfHeld x | skipUnlessHeld x => rw [perform, skipIf_eq]; rfl
  | _ => rfl

/-- Where an instruction leads from a program counter that has gone past it. -/
theorem pc_perform (m : Machine) (i : Instruction) :
    (m.perform i).pc = match i with
      | .ret => m.stack.top
      | .jump nnn | .call nnn => nnn
      | .jumpFrom nnn => (nnn + (m.v.get 0).toUInt16) % 4096
      | i => if m.skips i then after (after m.pc) else m.pc := by
  rw [perform_eq]
  cases i <;> rfl

/-- Calls push, returns drop, and nothing else touches the call stack. -/
theorem stack_perform (m : Machine) (i : Instruction) :
    (m.perform i).stack = match i with
      | .call _ => m.stack.push m.pc
      | .ret => m.stack.drop
      | _ => m.stack := by
  rw [perform_eq]
  cases i <;> rfl

/-- The base of the glyphs stays as it was given. -/
theorem fontBase_perform (m : Machine) (i : Instruction) : (m.perform i).memory.fontBase = m.memory.fontBase := by
  rw [perform_eq]
  cases i with
  | decimal x | store x => exact Memory.fontBase_load _ _ _
  | _ => rfl

theorem emptyRow_perform (m : Machine) (i : Instruction) : (m.perform i).emptyRow = m.emptyRow := by
  rw [perform_eq]

theorem stopping_perform (m : Machine) (i : Instruction) : (m.perform i).stopping = m.stopping := by
  rw [perform_eq]

/-! ## How a cycle comes out -/

theorem next_eq_empty_iff (m : Machine) : m.next = .empty ↔ m.wordAt m.pc = 0 :=
  Instruction.decode_eq_empty_iff _

/-- Only an instruction that awaits a key can wait. -/
theorem goes_unless_awaitKey {m : Machine} (other : ∀ x, m.next ≠ .awaitKey x) : m.wouldWait = false := by
  unfold wouldWait
  split
  · rename_i x awaits
    exact absurd awaits (other x)
  · rfl

theorem awaits_of_wouldWait {m : Machine} (waits : m.wouldWait = true) : ∃ x, m.next = .awaitKey x := by
  unfold wouldWait at waits
  split at waits
  · rename_i x awaits
    exact ⟨x, awaits⟩
  · cases waits

theorem wouldWait_of_empty {m : Machine} (isEmpty : m.next = .empty) : m.wouldWait = false :=
  goes_unless_awaitKey (by simp [isEmpty])

/-- A row that can be counted on has fewer than 255 words. -/
theorem toNat_emptyRow_lt {m : Machine} (room : m.emptyRow ≠ 255) : m.emptyRow.toNat < 255 := by
  have bound := m.emptyRow.toNat_lt
  have notFull : m.emptyRow.toNat ≠ 255 := fun full => room (UInt8.toNat_inj.mp full)
  omega

/-- What a cycle reports of an instruction that is not empty. -/
def noteOf (m : Machine) : Instruction → Option Event
  | .unknown word => some (.unknownWord word m.pc)
  | _ => none

/-- The four ways in which a cycle comes out, with all that it leaves behind. -/
theorem cycle_cases (m : Machine) :
    (m.next = .empty ∧ m.emptyRow = 255 ∧ m.cycle = ⟨m, .overflow, none⟩) ∨
    (m.next = .empty ∧ m.emptyRow ≠ 255 ∧
      m.cycle = ⟨{ m.advance with emptyRow := m.emptyRow + 1 },
        if emptyLimit ≤ m.emptyRow + 1 then .halted else .done, some (.emptyWord m.pc (m.emptyRow + 1))⟩) ∨
    (m.next ≠ .empty ∧ m.wouldWait = true ∧ m.cycle = ⟨m, .waiting, none⟩) ∨
    (m.next ≠ .empty ∧ m.wouldWait = false ∧
      m.cycle = ⟨({ m.advance with emptyRow := 0 }).perform m.next, .done, m.noteOf m.next⟩) := by
  by_cases isEmpty : m.next = .empty
  · by_cases full : m.emptyRow = 255
    · exact .inl ⟨isEmpty, full, by simp [cycle, isEmpty, cycleEmpty, full]⟩
    · exact .inr (.inl ⟨isEmpty, full, by simp [cycle, isEmpty, cycleEmpty, full]⟩)
  · cases waits : m.wouldWait with
    | true => exact .inr (.inr (.inl ⟨isEmpty, rfl, by unfold cycle; split <;> simp_all⟩))
    | false =>
      refine .inr (.inr (.inr ⟨isEmpty, rfl, ?_⟩))
      unfold cycle
      split
      · contradiction
      · simp only [waits, Bool.false_eq_true, ↓reduceIte]
        rfl

theorem cycle_of_empty {m : Machine} (isEmpty : m.next = .empty) : m.cycle = m.cycleEmpty := by
  simp [cycle, isEmpty]

theorem cycle_of_waits {m : Machine} (waits : m.wouldWait = true) : m.cycle = ⟨m, .waiting, none⟩ := by
  rcases m.cycle_cases with ⟨isEmpty, -, -⟩ | ⟨isEmpty, -, -⟩ | ⟨-, -, eq⟩ | ⟨-, goes, -⟩
  · simp [wouldWait_of_empty isEmpty] at waits
  · simp [wouldWait_of_empty isEmpty] at waits
  · exact eq
  · rw [goes] at waits
    cases waits

theorem cycle_of_goes {m : Machine} (other : m.next ≠ .empty) (goes : m.wouldWait = false) :
    m.cycle = ⟨({ m.advance with emptyRow := 0 }).perform m.next, .done, m.noteOf m.next⟩ := by
  rcases m.cycle_cases with ⟨isEmpty, -, -⟩ | ⟨isEmpty, -, -⟩ | ⟨-, waits, -⟩ | ⟨-, -, eq⟩
  · contradiction
  · contradiction
  · rw [goes] at waits
    cases waits
  · exact eq

/-! ## What a cycle leaves behind -/

/-- Whether a cycle comes to its end: it has no key to wait for, and no empty word that it cannot count. -/
def Completes (m : Machine) : Prop := m.wouldWait = false ∧ ¬ (m.wordAt m.pc = 0 ∧ m.emptyRow = 255)

/-- A word that is neither empty nor awaits a key never keeps a cycle from its end. -/
theorem completes_of_next {m : Machine} (other : m.next ≠ .empty) (deaf : ∀ x, m.next ≠ .awaitKey x) : m.Completes :=
  ⟨goes_unless_awaitKey deaf, fun full => other ((next_eq_empty_iff m).mpr full.1)⟩

theorem completes_iff (m : Machine) : m.Completes ↔ m.cycle.outcome = .done ∨ m.cycle.outcome = .halted := by
  unfold Completes
  rw [← next_eq_empty_iff]
  rcases m.cycle_cases with ⟨isEmpty, full, eq⟩ | ⟨isEmpty, room, eq⟩ | ⟨-, waits, eq⟩ | ⟨other, goes, eq⟩ <;> rw [eq]
  · simp [isEmpty, full]
  · by_cases row : emptyLimit ≤ m.emptyRow + 1 <;> simp [wouldWait_of_empty isEmpty, room, row]
  · simp [waits]
  · simp [goes, other]

/-- The machine as an instruction finds it: gone past its word, which was counted if it is empty. -/
def fetching (m : Machine) : Machine :=
  { m.advance with emptyRow := if m.wordAt m.pc = 0 then m.emptyRow + 1 else 0 }

theorem cycle_of_completes {m : Machine} (completes : m.Completes) : m.cycle.machine = m.fetching.perform m.next := by
  obtain ⟨goes, countable⟩ := completes
  rcases m.cycle_cases with ⟨isEmpty, full, -⟩ | ⟨isEmpty, -, eq⟩ | ⟨-, waits, -⟩ | ⟨other, -, eq⟩
  · exact absurd ⟨(next_eq_empty_iff m).mp isEmpty, full⟩ countable
  · rw [eq, fetching, if_pos ((next_eq_empty_iff m).mp isEmpty), isEmpty]
    rfl
  · rw [goes] at waits
    cases waits
  · rw [eq, fetching, if_neg (mt (next_eq_empty_iff m).mpr other)]

/-- A word with the form of an instruction that is neither empty nor awaits a key. -/
theorem cycle_of_fits {m : Machine} {i : Instruction} (fits : i.Fits (m.wordAt m.pc)) (other : i ≠ .empty)
    (deaf : ∀ x, i ≠ .awaitKey x) : m.cycle.outcome = .done ∧ m.cycle.machine = m.fetching.perform i := by
  obtain rfl : m.next = i := Instruction.decode_of_fits fits
  have completes := completes_of_next other deaf
  rw [cycle_of_completes completes, cycle_of_goes other completes.1]
  exact ⟨rfl, rfl⟩

/-- A cycle that does not come to its end has not happened. -/
theorem cycle_of_incomplete {m : Machine} (incomplete : ¬ m.Completes) : m.cycle.machine = m := by
  rcases m.cycle_cases with ⟨-, -, eq⟩ | ⟨isEmpty, room, -⟩ | ⟨-, -, eq⟩ | ⟨other, goes, -⟩
  · rw [eq]
  · exact absurd ⟨wouldWait_of_empty isEmpty, fun full => room full.2⟩ incomplete
  · rw [eq]
  · exact absurd ⟨goes, fun full => other ((next_eq_empty_iff m).mpr full.1)⟩ incomplete

end Machine
end Chip8
