import Chip8.Proofs.AddressRange

/-!
# Twelve bits of address

The index and the base of the glyphs have sixteen bits, and memory takes every address modulo its size. So nothing
that a machine does depends on more than twelve of these bits: a machine whose index and base are replaced by
congruent ones (`Machine.rebased`) executes an instruction alike (`Machine.perform_rebased`), and so it acts alike
(`Machine.Congruent.act`).
-/

namespace Chip8

namespace Memory

theorem slot_eq_iff (a b : UInt16) : slot a = slot b ↔ a % 4096 = b % 4096 := by
  rw [← UInt16.toNat_inj]
  simp [slot]

/-- Places go on alike, also where the sixteen bits run over. -/
theorem slot_add {a b : UInt16} (same : slot a = slot b) (k : UInt16) : slot (a + k) = slot (b + k) := by
  simp only [slot, Fin.mk.injEq, UInt16.toNat_add] at same ⊢
  omega

variable {a b : UInt16}

theorem fetch_congr (m : Memory) (same : slot a = slot b) : m.fetch a = m.fetch b := by
  simp only [fetch, same]

theorem write_congr (m : Memory) (same : slot a = slot b) (c : UInt8) : m.write a c = m.write b c := by
  simp only [write, same]

theorem load_congr (m : Memory) (same : slot a = slot b) (bs : List UInt8) : m.load a bs = m.load b bs := by
  induction bs generalizing m a b with
  | nil => rfl
  | cons c rest ih =>
    rw [load, load, write_congr m same]
    exact ih _ (slot_add same 1)

theorem read_congr (m : Memory) (same : slot a = slot b) (count : Nat) : m.read a count = m.read b count := by
  have each : (fun j => m.fetch (a + UInt16.ofNat j)) = fun j => m.fetch (b + UInt16.ofNat j) := by
    funext j
    exact m.fetch_congr (slot_add same _)
  rw [read, read, each]

def rebased (m : Memory) (base : UInt16) : Memory := { m with fontBase := base }

theorem load_rebased (m : Memory) (base origin : UInt16) (bs : List UInt8) :
    (m.rebased base).load origin bs = (m.load origin bs).rebased base := by
  induction bs generalizing m origin with
  | nil => rfl
  | cons c rest ih => exact ih (m.write origin c) (origin + 1)

theorem fresh_congr (same : slot a = slot b) : fresh b = (fresh a).rebased b := by
  rw [fresh, fresh, ← load_congr _ same, ← load_rebased]
  rfl

end Memory

namespace Machine

/-- Two machines that are the same but for an index and a base of the glyphs that are only congruent. -/
structure Congruent (m n : Machine) : Prop where
  bytes : m.memory.bytes = n.memory.bytes
  stack : m.stack = n.stack
  display : m.display = n.display
  keypad : m.keypad = n.keypad
  pc : m.pc = n.pc
  v : m.v = n.v
  delay : m.delay = n.delay
  sound : m.sound = n.sound
  emptyRow : m.emptyRow = n.emptyRow
  stopping : m.stopping = n.stopping
  random : m.random = n.random
  index : m.index % 4096 = n.index % 4096
  fontBase : m.memory.fontBase % 4096 = n.memory.fontBase % 4096

/-- The machine with another index and another base of the glyphs. -/
def rebased (m : Machine) (index base : UInt16) : Machine := { m with memory := m.memory.rebased base, index := index }

theorem congruent_iff (m n : Machine) : m.Congruent n ↔ ∃ index base, Memory.slot index = Memory.slot m.index ∧
    Memory.slot base = Memory.slot m.memory.fontBase ∧ n = m.rebased index base := by
  constructor
  · rintro ⟨bytes, stack, display, keypad, pc, v, delay, sound, emptyRow, stopping, random, index, base⟩
    refine ⟨n.index, n.memory.fontBase, ?_, ?_, ?_⟩
    · rw [Memory.slot_eq_iff, index]
    · rw [Memory.slot_eq_iff, base]
    · simp only [rebased, Memory.rebased, bytes, stack, display, keypad, pc, v, delay, sound, emptyRow, stopping, random]
  · rintro ⟨index, base, sameIndex, sameBase, rfl⟩
    exact ⟨rfl, rfl, rfl, rfl, rfl, rfl, rfl, rfl, rfl, rfl, rfl, ((Memory.slot_eq_iff _ _).mp sameIndex).symm,
      ((Memory.slot_eq_iff _ _).mp sameBase).symm⟩

/-! ## Instructions -/

/-- Only three instructions set the index. -/
theorem index_perform (m : Machine) (i : Instruction) :
    (m.perform i).index = match i with
      | .setIndex nnn => nnn
      | .addIndex x => m.index + (m.v.get x).toUInt16
      | .glyph x => m.memory.fontBase + (m.v.get x).toUInt16 * Font.glyphSize
      | _ => m.index := by
  rw [perform_eq]
  cases i <;> rfl

/-- Where an instruction goes by the index, it goes to its place in memory, and where it sets the index, it sets a
congruent one. -/
theorem perform_rebased (m : Machine) {index base : UInt16} (sameIndex : Memory.slot index = Memory.slot m.index)
    (sameBase : Memory.slot base = Memory.slot m.memory.fontBase) (i : Instruction) :
    ∃ new, Memory.slot new = Memory.slot (m.perform i).index ∧
      (m.rebased index base).perform i = (m.perform i).rebased new base := by
  have stays (keeps : (m.perform i).index = m.index)
      (same : (m.rebased index base).perform i = (m.perform i).rebased index base) :
      ∃ new, Memory.slot new = Memory.slot (m.perform i).index ∧
        (m.rebased index base).perform i = (m.perform i).rebased new base :=
    ⟨index, by rw [keeps, sameIndex], same⟩
  cases i with
  | setIndex nnn => exact ⟨nnn, rfl, rfl⟩
  | addIndex x =>
    refine ⟨index + (m.v.get x).toUInt16, ?_, rfl⟩
    rw [index_perform]
    exact Memory.slot_add sameIndex _
  | glyph x =>
    refine ⟨base + (m.v.get x).toUInt16 * Font.glyphSize, ?_, rfl⟩
    rw [index_perform]
    exact Memory.slot_add sameBase _
  | draw x y n =>
    have sprite : (m.memory.rebased base).read index n.val = m.memory.read m.index n.val :=
      m.memory.read_congr sameIndex _
    exact stays rfl (by simp only [perform, drawSprite, rebased, sprite, set])
  | decimal x =>
    have digits := m.memory.load_congr sameIndex (decimalDigits (m.v.get x))
    exact stays rfl (by simp only [perform, rebased, Memory.load_rebased, digits])
  | store x =>
    have bytes := m.memory.load_congr sameIndex (m.v.toList.take (x.val + 1))
    exact stays rfl (by simp only [perform, rebased, Memory.load_rebased, bytes])
  | fill x =>
    have byte (j : Nat) :
        (m.memory.rebased base).fetch (index + UInt16.ofNat j) = m.memory.fetch (m.index + UInt16.ofNat j) :=
      m.memory.fetch_congr (Memory.slot_add sameIndex _)
    exact stays (index_perform m _) (by simp only [perform, rebased, byte])
  | _ => exact stays (index_perform m _) (by rw [perform_eq, perform_eq]; rfl)

/-! ## Congruent machines -/

namespace Congruent

variable {m n : Machine} (congruent : m.Congruent n)

include congruent

theorem perform (i : Instruction) : (m.perform i).Congruent (n.perform i) := by
  obtain ⟨index, base, sameIndex, sameBase, rfl⟩ := (congruent_iff m n).mp congruent
  obtain ⟨new, sameNew, eq⟩ := m.perform_rebased sameIndex sameBase i
  exact (congruent_iff _ _).mpr ⟨new, base, sameNew, by rw [fontBase_perform, sameBase], eq⟩

theorem next_eq : m.wordAt m.pc = n.wordAt n.pc ∧ m.next = n.next ∧ m.wouldWait = n.wouldWait := by
  obtain ⟨index, base, -, -, rfl⟩ := (congruent_iff m n).mp congruent
  exact ⟨rfl, rfl, rfl⟩

theorem advance : m.advance.Congruent n.advance := by
  obtain ⟨index, base, sameIndex, sameBase, rfl⟩ := (congruent_iff m n).mp congruent
  exact (congruent_iff _ _).mpr ⟨index, base, sameIndex, sameBase, rfl⟩

theorem counted (row : UInt8) :
    ({ m with emptyRow := row } : Machine).Congruent ({ n with emptyRow := row } : Machine) := by
  obtain ⟨index, base, sameIndex, sameBase, rfl⟩ := (congruent_iff m n).mp congruent
  exact (congruent_iff _ _).mpr ⟨index, base, sameIndex, sameBase, rfl⟩

theorem cycle : m.cycle.outcome = n.cycle.outcome ∧ m.cycle.machine.Congruent n.cycle.machine := by
  obtain ⟨-, next, waiting⟩ := congruent.next_eq
  rcases m.cycle_cases with ⟨isEmpty, full, eq⟩ | ⟨isEmpty, room, eq⟩ | ⟨-, waits, eq⟩ | ⟨other, goes, eq⟩ <;> rw [eq]
  · rw [cycle_of_empty (next ▸ isEmpty), cycleEmpty, ← congruent.emptyRow, if_pos full]
    exact ⟨rfl, congruent⟩
  · rw [cycle_of_empty (next ▸ isEmpty), cycleEmpty, ← congruent.emptyRow, if_neg room]
    exact ⟨rfl, congruent.advance.counted (m.emptyRow + 1)⟩
  · rw [cycle_of_waits (waiting ▸ waits)]
    exact ⟨rfl, congruent⟩
  · rw [cycle_of_goes (next ▸ other) (waiting ▸ goes), ← next]
    exact ⟨rfl, (congruent.advance.counted 0).perform m.next⟩

theorem act (a : Action) : (m.act a).Congruent (n.act a) := by
  cases a with
  | cycle => exact congruent.cycle.2
  | load rom =>
    obtain ⟨index, base, sameIndex, sameBase, rfl⟩ := (congruent_iff m n).mp congruent
    refine (congruent_iff _ _).mpr ⟨index, base, sameIndex, ?_, ?_⟩
    · simpa [Machine.act, load] using sameBase
    · simp only [Machine.act, load, rebased, Memory.load_rebased]
  | tick =>
    obtain ⟨index, base, sameIndex, sameBase, rfl⟩ := (congruent_iff m n).mp congruent
    exact (congruent_iff _ _).mpr ⟨index, base, sameIndex, sameBase, rfl⟩
  | touch t =>
    obtain ⟨index, base, sameIndex, sameBase, rfl⟩ := (congruent_iff m n).mp congruent
    cases t <;> exact (congruent_iff _ _).mpr ⟨index, base, sameIndex, sameBase, rfl⟩

theorem fetches_eq (a : Action) : m.fetches a = n.fetches a := by
  cases a with
  | cycle =>
    obtain ⟨word, -, -⟩ := congruent.next_eq
    rw [fetches, fetches, fetched, fetched, word, congruent.pc, congruent.cycle.1]
  | _ => rfl

theorem through (h : List Action) : (m.through h).Congruent (n.through h) ∧ m.trace h = n.trace h := by
  induction h generalizing m n with
  | nil => exact ⟨congruent, rfl⟩
  | cons a rest ih =>
    obtain ⟨left, traces⟩ := ih (congruent.act a)
    exact ⟨left, by rw [trace, trace, congruent.fetches_eq a, traces]⟩

end Congruent

theorem congruent_fresh {config other : Config} (same : config.fontBase % 4096 = other.fontBase % 4096)
    (random : List UInt8) : (fresh config random).Congruent (fresh other random) := by
  have slots := (Memory.slot_eq_iff _ _).mpr same
  refine (congruent_iff _ _).mpr ⟨0, other.fontBase, rfl, ?_, ?_⟩
  · simpa [fresh, Memory.fresh] using slots.symm
  · simp only [fresh, rebased, Memory.fresh_congr slots]

/-! ## The index is never reduced -/

/-- What an instruction would leave in the index if there were no bound to it. -/
def indexSum (m : Machine) : Instruction → Nat
  | .setIndex nnn => nnn.toNat
  | .addIndex x => m.index.toNat + (m.v.get x).toNat
  | .glyph x => m.memory.fontBase.toNat + 5 * (m.v.get x).toNat
  | _ => m.index.toNat

theorem toNat_index_perform (m : Machine) (i : Instruction) :
    (m.perform i).index.toNat = m.indexSum i % 65536 := by
  have whole (a : UInt16) : a.toNat = a.toNat % 65536 := (Nat.mod_eq_of_lt a.toNat_lt).symm
  rw [index_perform]
  cases i with
  | addIndex x => simp [indexSum]
  | glyph x =>
    simp only [indexSum, UInt16.toNat_add, UInt16.toNat_mul, UInt8.toNat_toUInt16, Font.glyphSize, UInt16.reduceToNat]
    omega
  | _ => exact whole _

theorem toNat_index_cycle (m : Machine) : m.cycle.machine.index.toNat = m.indexSum m.next % 65536 := by
  have stays : m.index.toNat = m.index.toNat % 65536 := (Nat.mod_eq_of_lt m.index.toNat_lt).symm
  rcases m.cycle_cases with ⟨isEmpty, -, eq⟩ | ⟨isEmpty, -, eq⟩ | ⟨-, waits, eq⟩ | ⟨-, -, eq⟩ <;> rw [eq]
  · rw [isEmpty]
    exact stays
  · rw [isEmpty]
    exact stays
  · obtain ⟨x, awaits⟩ := awaits_of_wouldWait waits
    rw [awaits]
    exact stays
  · exact toNat_index_perform { m.advance with emptyRow := 0 } m.next

theorem index_act {a : Action} (m : Machine) (outside : a ≠ .cycle) : (m.act a).index = m.index := by
  cases a with
  | cycle => contradiction
  | touch t => rw [Machine.act, touch_eq]
  | _ => rfl

/-- Memory is addressed by twelve bits. Machines whose indexes and glyph bases are only congruent modulo 4096 stay so
through every history, are the same in all else, and fetch the same words with the same outcomes; in particular
machines that began with congruent bases. The index itself is reduced modulo its sixteen bits only, so the
indexes of such machines can come to be as different as their bases. -/
theorem addressed_by_twelve_bits :
    (∀ m n : Machine, m.Congruent n → ∀ h, (m.through h).Congruent (n.through h) ∧ m.trace h = n.trace h) ∧
    (∀ (config other : Config) (random : List UInt8), config.fontBase % 4096 = other.fontBase % 4096 → ∀ h,
      ((fresh config random).through h).Congruent ((fresh other random).through h) ∧
        (fresh config random).trace h = (fresh other random).trace h) ∧
    (∀ m : Machine, m.cycle.machine.index.toNat = m.indexSum m.next % 65536 ∧
      ∀ a, a ≠ .cycle → (m.act a).index = m.index) ∧
    ∃ h, ∀ base : UInt16, ((fresh ⟨defaultClock, base⟩ []).through h).index = base := by
  refine ⟨fun m n congruent h => congruent.through h, ?_, ?_, ⟨_, index_of_glyph⟩⟩
  · intro config other random same h
    exact (congruent_fresh same random).through h
  · intro m
    exact ⟨m.toNat_index_cycle, fun a outside => m.index_act outside⟩

/-- Takes the glyph of zero across the end of memory, draws it, and stores registers over it. -/
def straddling : List Action :=
  [.load [0xF0, 0x29, 0xD0, 0x05, 0xF3, 0x55], .cycle, .cycle, .tick, .cycle]

theorem straddling_alike :
    let m := (fresh ⟨defaultClock, 0x0FFE⟩ []).through straddling
    let n := (fresh ⟨defaultClock, 0xFFFE⟩ []).through straddling
    m.display = n.display ∧ m.display ≠ .blank ∧ m.memory.bytes = n.memory.bytes ∧ m.index ≠ n.index := by
  intro m n
  have congruent : m.Congruent n :=
    (addressed_by_twelve_bits.2.1 ⟨defaultClock, 0x0FFE⟩ ⟨defaultClock, 0xFFFE⟩ [] (by decide) straddling).1
  have seen : m.display ≠ .blank ∧ m.index ≠ n.index := by decide +kernel
  obtain ⟨drawn, apart⟩ := seen
  exact ⟨congruent.display, drawn, congruent.bytes, apart⟩

end Machine
end Chip8
