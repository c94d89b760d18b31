import Chip8.Proofs.AddressRange
import Mathlib.Algebra.Group.Nat.Defs
import Mathlib.Data.List.Induction

/-!
# Reading a dump back

A numeral is read digit by digit and gives the number that it was made of, whatever zeros it was filled up with
(`Hex.read?_padded`, `Decimal.read?_padded`). No line of a dump has a line break inside, so the lines of its text
are its lines (`Registers.linesOf_text`), and all of the registers are found in them (`Registers.ofText_text`).
-/

namespace Chip8

/-! ## Numerals -/

theorem Digit.char_injective : ∀ d e : Digit, d.char = e.char → d = e := by
  decide

/-- The value of a character that is a digit below the base. -/
def digitOf? (base : Nat) (c : Char) : Option Nat :=
  (Digit.all.find? fun d => decide (d.val < base ∧ d.char = c)).map Fin.val

/-- The number that a numeral stands for in a base of at most sixteen. -/
def numberOf? (base : Nat) (numeral : List Char) : Option Nat :=
  numeral.foldlM (fun n c => (digitOf? base c).map (base * n + ·)) 0

def Hex.read? (s : String) : Option Nat := numberOf? 16 s.toList

def Decimal.read? (s : String) : Option Nat := numberOf? 10 s.toList

section
variable {base : Nat}

theorem digitOf?_eq_some_iff {c : Char} {n : Nat} :
    digitOf? base c = some n ↔ ∃ d : Digit, d.val < base ∧ d.char = c ∧ d.val = n := by
  have unique : ∀ j k : Digit, decide (j.val < base ∧ j.char = c) = true →
      decide (k.val < base ∧ k.char = c) = true → j = k := by
    intro j k first second
    exact Digit.char_injective j k ((of_decide_eq_true first).2.trans (of_decide_eq_true second).2.symm)
  simp only [digitOf?, Option.map_eq_some_iff, Digit.find?_all_eq_some_iff unique, decide_eq_true_eq, and_assoc]

theorem digitOf?_char {d : Digit} (below : d.val < base) : digitOf? base d.char = some d.val :=
  digitOf?_eq_some_iff.mpr ⟨d, below, rfl, rfl⟩

theorem numberOf?_snoc (numeral : List Char) (c : Char) :
    numberOf? base (numeral ++ [c]) =
      (numberOf? base numeral).bind fun n => (digitOf? base c).map (base * n + ·) := by
  simp [numberOf?, List.foldlM_append]

theorem numberOf?_zeros (some_digit : 0 < base) (zeros : Nat) (numeral : List Char) :
    numberOf? base (List.replicate zeros '0' ++ numeral) = numberOf? base numeral := by
  induction zeros with
  | zero => simp
  | succ zeros ih =>
    have zero : digitOf? base '0' = some 0 := digitOf?_char (d := 0) some_digit
    rw [List.replicate_succ, List.cons_append, ← ih]
    simp [numberOf?, zero]

/-- A numeral whose digits are written in any way that shows their values stands for the number it was made of. -/
theorem numberOf?_toDigits (many : 1 < base) (few : base ≤ 16) {write : Char → Char}
    (written : ∀ d : Digit, d.val < base → write (Nat.digitChar d.val) = d.char) (n : Nat) :
    numberOf? base ((Nat.toDigits base n).map write) = some n := by
  have read (d : Nat) (below : d < base) : digitOf? base (write (Nat.digitChar d)) = some d := by
    have digit := written ⟨d, Nat.lt_of_lt_of_le below few⟩ below
    rw [digit]
    exact digitOf?_char below
  induction n using Nat.strongRecOn with
  | _ n ih =>
    by_cases below : n < base
    · rw [Nat.toDigits_of_lt_base below]
      simp [numberOf?, read n below]
    · have least : base ≤ n := Nat.le_of_not_lt below
      have smaller : n / base < n := Nat.div_lt_self (by omega) many
      have last : n % base < base := Nat.mod_lt n (by omega)
      rw [Nat.toDigits_of_base_le many least, List.map_append, List.map_singleton, numberOf?_snoc, ih _ smaller]
      simp [read _ last, Nat.div_add_mod]

theorem mem_numeral {numeral : List Char} {n : Nat} (read : numberOf? base numeral = some n) {c : Char}
    (member : c ∈ numeral) : ∃ d : Digit, d.char = c := by
  induction numeral using List.reverseRecOn generalizing n with
  | nil => simp at member
  | append_singleton numeral last ih =>
    rw [numberOf?_snoc, Option.bind_eq_some_iff] at read
    obtain ⟨front, readFront, readLast⟩ := read
    rw [Option.map_eq_some_iff] at readLast
    obtain ⟨value, digit, -⟩ := readLast
    rcases List.mem_append.mp member with before | here
    · exact ih readFront before
    · obtain ⟨d, -, same, -⟩ := digitOf?_eq_some_iff.mp digit
      exact ⟨d, same.trans (List.mem_singleton.mp here).symm⟩

/-- A line break is no digit. -/
theorem no_break_of_read {numeral : List Char} {n : Nat} (read : numberOf? base numeral = some n) :
    '\n' ∉ numeral := by
  intro member
  obtain ⟨d, same⟩ := mem_numeral read member
  have other : ∀ d : Digit, d.char ≠ '\n' := by decide
  exact other d same

theorem length_padded (many : 1 < base) {places n : Nat} (room : 0 < places) (write : Char → Char) :
    (((Nat.toDigits base n).map write).leftpad places '0').length = places ↔ n < base ^ places := by
  rw [List.length_leftpad, List.length_map, ← Nat.length_toDigits_le_iff many room]
  omega

end

theorem Hex.read?_padded (places n : Nat) : Hex.read? (padded places n) = some n := by
  have upper : ∀ d : Digit, d.val < 16 → (Nat.digitChar d.val).toUpper = d.char := by decide
  rw [read?, padded, String.toList_ofList, List.leftpad, numberOf?_zeros (by decide), digits]
  exact numberOf?_toDigits (by decide) (by decide) upper n

theorem Decimal.read?_padded (places n : Nat) : Decimal.read? (padded places n) = some n := by
  have plain : ∀ d : Digit, d.val < 10 → id (Nat.digitChar d.val) = d.char := by decide
  rw [read?, padded, String.toList_ofList, List.leftpad, numberOf?_zeros (by decide),
    ← List.map_id (Nat.toDigits 10 n)]
  exact numberOf?_toDigits (by decide) (by decide) plain n

theorem Hex.length_padded_iff {places : Nat} (room : 0 < places) (n : Nat) :
    (padded places n).length = places ↔ n < 16 ^ places := by
  rw [padded, String.length_ofList, digits]
  exact length_padded (by decide) room Char.toUpper

theorem Decimal.length_padded_iff {places : Nat} (room : 0 < places) (n : Nat) :
    (padded places n).length = places ↔ n < 10 ^ places := by
  rw [padded, String.length_ofList, ← List.map_id (Nat.toDigits 10 n)]
  exact length_padded (by decide) room id

/-- An address above 0xFFF takes a fourth place. -/
theorem Hex.length_address (a : UInt16) : (padded 3 a.toNat).length = if a ≤ 0xFFF then 3 else 4 := by
  have bound := a.toNat_lt
  by_cases low : a ≤ 0xFFF
  · have small : a.toNat ≤ 0xFFF := UInt16.le_iff_toNat_le.mp low
    rw [if_pos low, length_padded_iff (by decide)]
    omega
  · have large : ¬a.toNat < 16 ^ 3 := by
      intro small
      exact low (UInt16.le_iff_toNat_le.mpr (Nat.le_of_lt_succ small))
    have wide : ¬(padded 3 a.toNat).length = 3 := fun three => large ((length_padded_iff (by decide) _).mp three)
    have narrow : (padded 4 a.toNat).length = 4 := (length_padded_iff (by decide) _).mpr bound
    rw [if_neg low]
    rw [padded, String.length_ofList, List.length_leftpad] at wide narrow ⊢
    omega

/-! ## Lines -/

/-- The lines that line breaks make of a text. -/
def linesOf (s : String) : List String := (s.split '\n').toList.map (·.copy)

/-- A line is a label with a numeral of some width behind it, which reads as a number. -/
def HasEntry (lines : List String) (row : Nat) (label : String) (width : Nat) (read : String → Option Nat)
    (value : Nat) : Prop :=
  ∃ numeral, lines[row]? = some (label ++ numeral) ∧ numeral.length = width ∧ read numeral = some value

theorem Hex.hasEntry {lines : List String} {row width places value : Nat} {label : String}
    (line : lines[row]? = some (label ++ padded places value)) (wide : (padded places value).length = width) :
    HasEntry lines row label width read? value :=
  ⟨_, line, wide, read?_padded places value⟩

theorem Decimal.hasEntry {lines : List String} {row width places value : Nat} {label : String}
    (line : lines[row]? = some (label ++ padded places value)) (wide : (padded places value).length = width) :
    HasEntry lines row label width read? value :=
  ⟨_, line, wide, read?_padded places value⟩

/-- What is read in a line behind a label of four characters. -/
def entryAt (read : String → Option Nat) (lines : List String) (row : Nat) : Nat :=
  ((lines[row]?).bind fun line => read (String.ofList (line.toList.drop 4))).getD 0

theorem linesOf_break (s : String) : linesOf (s ++ "\n") = linesOf s ++ [""] := by
  simp only [linesOf, String.toList_split_char, String.toList_append, String.reduceToList,
    List.splitOn_append_cons_self, List.map_append]
  rfl

theorem HasEntry.entryAt_eq {lines : List String} {row width value : Nat} {label : String} {read : String → Option Nat}
    (entry : HasEntry lines row label width read value) (four : label.length = 4) :
    entryAt read lines row = value := by
  obtain ⟨numeral, line, -, reads⟩ := entry
  rw [← String.length_toList] at four
  have behind : (label ++ numeral).toList.drop 4 = numeral.toList := by
    rw [String.toList_append, List.drop_left' four]
  rw [entryAt, line, Option.bind_some, behind, String.ofList_toList, reads, Option.getD_some]

namespace Registers

/-- Takes the registers from the lines of a dump. -/
def ofText (s : String) : Registers :=
  let lines := linesOf s
  { v := Vector.ofFn fun x => UInt8.ofNat (entryAt Hex.read? lines (x.val + 1))
    pc := UInt16.ofNat (entryAt Hex.read? lines 17)
    depth := entryAt Decimal.read? lines 18
    index := UInt16.ofNat (entryAt Hex.read? lines 19)
    delay := UInt8.ofNat (entryAt Hex.read? lines 20)
    sound := UInt8.ofNat (entryAt Hex.read? lines 21) }

section
variable (r : Registers)

def labelOf (x : Digit) : String := "V" ++ String.singleton x.char ++ ": "

theorem length_lines : r.lines.length = 22 := by
  simp [lines, Digit.all]

theorem line_v (x : Digit) : r.lines[x.val + 1]? = some (labelOf x ++ Hex.padded 2 (r.v.get x).toNat) := by
  have inside : x.val < (Digit.all.map r.line).length := by simp [Digit.all]
  have line : r.lines[x.val + 1]? = some (r.line x) := by
    rw [lines, List.cons_append, List.getElem?_cons_succ, List.getElem?_append_left inside]
    simp [Digit.all]
  exact line

theorem no_break_in_lines : ∀ line ∈ r.lines, '\n' ∉ line.toList := by
  have behind {label numeral : String} {value : Nat} (plain : '\n' ∉ label.toList)
      (reads : Hex.read? numeral = some value ∨ Decimal.read? numeral = some value) :
      '\n' ∉ (label ++ numeral).toList := by
    rw [String.toList_append, List.mem_append]
    rintro (inLabel | inNumeral)
    · exact plain inLabel
    · rcases reads with hex | decimal
      · exact no_break_of_read hex inNumeral
      · exact no_break_of_read decimal inNumeral
  have label : ∀ x : Digit, '\n' ∉ (labelOf x).toList := by decide
  intro line member
  simp only [lines, List.cons_append, List.mem_cons, List.mem_append, List.mem_map, List.not_mem_nil, or_false]
    at member
  rcases member with rfl | ⟨x, -, rfl⟩ | rfl | rfl | rfl | rfl | rfl
  · decide
  · exact behind (label x) (.inl (Hex.read?_padded ..))
  · exact behind (by decide) (.inl (Hex.read?_padded ..))
  · exact behind (by decide) (.inr (Decimal.read?_padded ..))
  all_goals exact behind (by decide) (.inl (Hex.read?_padded ..))

theorem linesOf_text : linesOf r.text = r.lines := by
  have split := String.toList_split_intercalate r.no_break_in_lines
  rw [if_neg (by simp [lines])] at split
  exact split

theorem text_ne_break (s : String) : r.text ≠ s ++ "\n" := by
  intro ends
  have last : r.lines.getLast? = some "" := by
    rw [← linesOf_text, ends, linesOf_break, List.getLast?_concat]
  have sound : r.lines.getLast? = some ("ST: " ++ Hex.padded 2 r.sound.toNat) := rfl
  rw [sound] at last
  have short := congrArg String.length (Option.some.inj last)
  simp at short

/-- The registers of a dump are found in its text. -/
theorem ofText_text : ofText r.text = r := by
  have four : ∀ x : Digit, (labelOf x).length = 4 := by decide
  have v : (Vector.ofFn fun x => UInt8.ofNat (entryAt Hex.read? r.lines (x.val + 1))) = r.v := by
    apply Vector.ext
    intro i inside
    rw [Vector.getElem_ofFn, (Hex.hasEntry (r.line_v ⟨i, inside⟩) rfl).entryAt_eq (four ⟨i, inside⟩), UInt8.ofNat_toNat]
    rfl
  have pc : entryAt Hex.read? r.lines 17 = r.pc.toNat := (Hex.hasEntry rfl rfl).entryAt_eq rfl
  have depth : entryAt Decimal.read? r.lines 18 = r.depth := (Decimal.hasEntry rfl rfl).entryAt_eq rfl
  have index : entryAt Hex.read? r.lines 19 = r.index.toNat := (Hex.hasEntry rfl rfl).entryAt_eq rfl
  have delay : entryAt Hex.read? r.lines 20 = r.delay.toNat := (Hex.hasEntry rfl rfl).entryAt_eq rfl
  have sound : entryAt Hex.read? r.lines 21 = r.sound.toNat := (Hex.hasEntry rfl rfl).entryAt_eq rfl
  rw [ofText, linesOf_text, v, pc, depth, index, delay, sound]
  simp only [UInt16.ofNat_toNat, UInt8.ofNat_toNat]

theorem text_injective : Function.Injective text := Function.LeftInverse.injective ofText_text

end
end Registers

namespace Machine

theorem registers_eq_iff {m m' : Machine} :
    m.registers = m'.registers ↔ m.v = m'.v ∧ m.pc = m'.pc ∧ m.stack.pointer = m'.stack.pointer ∧
      m.index = m'.index ∧ m.delay = m'.delay ∧ m.sound = m'.sound := by
  simp [registers, Fin.val_inj]

/-- For every machine that a history leads to: its dump has exactly the twenty-two lines of the registers and does not
end the last one. Behind its label each line has a numeral that reads as the value, in two digits for a byte and for
the pointer of the stack, in three for the program counter, and for the index in three or, above 0xFFF, in four. All of
the registers are found in the text, so two machines have the same dump exactly if they agree in what it shows. -/
theorem dump_is_lossless (config : Config) (random : List UInt8) (h : List Action) :
    let m := (fresh config random).through h
    let lines := linesOf m.registers.text
    (lines.length = 22 ∧ lines[0]? = some "Registers:" ∧ ∀ s, m.registers.text ≠ s ++ "\n") ∧
    (∀ x : Digit, HasEntry lines (x.val + 1) ("V" ++ String.singleton x.char ++ ": ") 2 Hex.read? (m.v.get x).toNat) ∧
    HasEntry lines 17 "PC: " 3 Hex.read? m.pc.toNat ∧
    HasEntry lines 18 "SP: " 2 Decimal.read? m.stack.pointer.val ∧
    HasEntry lines 19 "I:  " (if m.index ≤ 0xFFF then 3 else 4) Hex.read? m.index.toNat ∧
    HasEntry lines 20 "DT: " 2 Hex.read? m.delay.toNat ∧
    HasEntry lines 21 "ST: " 2 Hex.read? m.sound.toNat ∧
    Registers.ofText m.registers.text = m.registers ∧
    ∀ (config' : Config) (random' : List UInt8) (h' : List Action),
      let m' := (fresh config' random').through h'
      m.registers.text = m'.registers.text ↔ m.v = m'.v ∧ m.pc = m'.pc ∧ m.stack.pointer = m'.stack.pointer ∧
        m.index = m'.index ∧ m.delay = m'.delay ∧ m.sound = m'.sound := by
  intro m lines
  have lines_eq : lines = m.registers.lines := m.registers.linesOf_text
  have inside : m.InMemory := (inMemory_fresh config random).through h
  have byte (b : UInt8) : (Hex.padded 2 b.toNat).length = 2 := (Hex.length_padded_iff (by decide) _).mpr b.toNat_lt
  have address : (Hex.padded 3 m.pc.toNat).length = 3 :=
    (Hex.length_padded_iff (by decide) _).mpr (UInt16.lt_iff_toNat_lt.mp inside.pc_lt)
  have pointer : (Decimal.padded 2 m.stack.pointer.val).length = 2 :=
    (Decimal.length_padded_iff (by decide) _).mpr (Nat.lt_trans m.stack.pointer.isLt (by decide))
  rw [lines_eq]
  refine ⟨⟨m.registers.length_lines, rfl, m.registers.text_ne_break⟩, fun x => ?_, ?_, ?_, ?_, ?_, ?_,
    m.registers.ofText_text, fun config' random' h' => ?_⟩
  · exact Hex.hasEntry (m.registers.line_v x) (byte _)
  · exact Hex.hasEntry rfl address
  · exact Decimal.hasEntry rfl pointer
  · exact Hex.hasEntry rfl (Hex.length_address m.index)
  · exact Hex.hasEntry rfl (byte m.delay)
  · exact Hex.hasEntry rfl (byte m.sound)
  · exact Registers.text_injective.eq_iff.trans registers_eq_iff

end Machine
end Chip8
