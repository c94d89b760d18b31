import Chip8.Proofs.Effects
import Mathlib.Algebra.Group.Nat.Defs
import Mathlib.Data.List.Forall2

/-!
# The table of instructions

The instruction set as a table of patterns (`Instruction.table`). No word has the patterns of two rows
(`Instruction.disjoint_table`). A word with the pattern of a row is the instruction of that row
(`Instruction.matches_iff_fits`), and the words without a pattern are unknown. To write an instruction is to fill its
pattern with the operands, and nothing is lost either way (`Instruction.encode_decode`, `Instruction.decode_encode`).
-/

namespace Chip8

namespace Word

/-! ## Words with the same fields -/

section
variable {v w : UInt16}

theorem ext_digits (first : head v = head w) (second : x v = x w) (third : y v = y w) (last : n v = n w) : v = w := by
  apply UInt16.toNat_inj.mp
  rw [toNat_eq_digits v, toNat_eq_digits w, first, second, third, last]

theorem ext_kk (first : head v = head w) (second : x v = x w) (byte : kk v = kk w) : v = w := by
  have digitsV := kk_eq_digits v
  have digitsW := kk_eq_digits w
  have belowV := (n v).isLt
  have belowW := (n w).isLt
  rw [byte] at digitsV
  exact ext_digits first second (Fin.ext (by omega)) (Fin.ext (by omega))

theorem ext_nnn (first : head v = head w) (rest : nnn v = nnn w) : v = w := by
  have fieldV := nnn_toNat v
  have fieldW := nnn_toNat w
  rw [head_eq, head_eq] at first
  rw [rest] at fieldV
  exact UInt16.toNat_inj.mp (by omega)

end

/-- The four digits of a word. -/
def digits (w : UInt16) : List Digit := [⟨head w, head_lt w⟩, x w, y w, n w]

end Word

/-- The digit that a character is. -/
def Digit.ofChar? : Char → Option Digit
  | '0' => some 0x0 | '1' => some 0x1 | '2' => some 0x2 | '3' => some 0x3
  | '4' => some 0x4 | '5' => some 0x5 | '6' => some 0x6 | '7' => some 0x7
  | '8' => some 0x8 | '9' => some 0x9 | 'A' => some 0xA | 'B' => some 0xB
  | 'C' => some 0xC | 'D' => some 0xD | 'E' => some 0xE | 'F' => some 0xF
  | _ => none

namespace Instruction
open Word

/-- The words with a pattern, and the instruction that each of them is. The letters in a pattern that are no digits stand
for the digits of an operand. -/
structure Row where
  pattern : String
  reads : UInt16 → Instruction

def table : List Row := [
  ⟨"0000", fun _ => .empty⟩,
  ⟨"00E0", fun _ => .clear⟩,
  ⟨"00EE", fun _ => .ret⟩,
  ⟨"1NNN", fun w => .jump (nnn w)⟩,
  ⟨"2NNN", fun w => .call (nnn w)⟩,
  ⟨"3XKK", fun w => .skipIfByte (x w) (kk w)⟩,
  ⟨"4XKK", fun w => .skipUnlessByte (x w) (kk w)⟩,
  ⟨"5XY0", fun w => .skipIfSame (x w) (y w)⟩,
  ⟨"9XY0", fun w => .skipUnlessSame (x w) (y w)⟩,
  ⟨"6XKK", fun w => .setByte (x w) (kk w)⟩,
  ⟨"7XKK", fun w => .addByte (x w) (kk w)⟩,
  ⟨"8XY0", fun w => .arithmetic .copy (x w) (y w)⟩,
  ⟨"8XY1", fun w => .arithmetic .or (x w) (y w)⟩,
  ⟨"8XY2", fun w => .arithmetic .and (x w) (y w)⟩,
  ⟨"8XY3", fun w => .arithmetic .xor (x w) (y w)⟩,
  ⟨"8XY4", fun w => .arithmetic .add (x w) (y w)⟩,
  ⟨"8XY5", fun w => .arithmetic .sub (x w) (y w)⟩,
  ⟨"8XY6", fun w => .arithmetic .shiftRight (x w) (y w)⟩,
  ⟨"8XY7", fun w => .arithmetic .subReverse (x w) (y w)⟩,
  ⟨"8XYE", fun w => .arithmetic .shiftLeft (x w) (y w)⟩,
  ⟨"ANNN", fun w => .setIndex (nnn w)⟩,
  ⟨"BNNN", fun w => .jumpFrom (nnn w)⟩,
  ⟨"CXKK", fun w => .random (x w) (kk w)⟩,
  ⟨"DXYN", fun w => .draw (x w) (y w) (n w)⟩,
  ⟨"EX9E", fun w => .skipIfHeld (x w)⟩,
  ⟨"EXA1", fun w => .skipUnlessHeld (x w)⟩,
  ⟨"FX07", fun w => .readDelay (x w)⟩,
  ⟨"FX0A", fun w => .awaitKey (x w)⟩,
  ⟨"FX15", fun w => .setDelay (x w)⟩,
  ⟨"FX18", fun w => .setSound (x w)⟩,
  ⟨"FX1E", fun w => .addIndex (x w)⟩,
  ⟨"FX29", fun w => .glyph (x w)⟩,
  ⟨"FX33", fun w => .decimal (x w)⟩,
  ⟨"FX55", fun w => .store (x w)⟩,
  ⟨"FX65", fun w => .fill (x w)⟩]

/-- Whether a digit can stand in the place of a character of a pattern. -/
def Allows (c : Char) (d : Digit) : Prop := (Digit.ofChar? c).elim True (d = ·)

/-- Whether a word has the digits that a pattern gives. -/
def Matches (pattern : String) (w : UInt16) : Prop := List.Forall₂ Allows pattern.toList (digits w)

/-- Whether two patterns give different digits in some place. -/
def apart (p q : String) : Bool :=
  (p.toList.zip q.toList).any fun (a, b) => (Digit.ofChar? a).any fun d => (Digit.ofChar? b).any (d != ·)

/-! ## The patterns -/

theorem not_matches_of_apart {p q : String} (differ : apart p q = true) {w : UInt16} (first : Matches p w) :
    ¬ Matches q w := by
  unfold apart at differ
  unfold Matches at first ⊢
  intro second
  generalize p.toList = as, q.toList = bs, digits w = ds at *
  induction first generalizing bs with
  | nil => simp at differ
  | @cons a d as ds here _ ih =>
    cases second with
    | @cons b _ bs _ there rest =>
      rw [List.zip_cons_cons, List.any_cons, Bool.or_eq_true] at differ
      rcases differ with now | later
      · obtain ⟨e, first, other⟩ := (Option.any_eq_true _ _).mp now
        obtain ⟨f, second, unequal⟩ := (Option.any_eq_true _ _).mp other
        rw [Allows, first] at here
        rw [Allows, second] at there
        obtain rfl : d = e := here
        simp [show d = f from there] at unequal
      · exact ih bs later rest

theorem disjoint_table : table.Pairwise fun r s => ∀ w, ¬ (Matches r.pattern w ∧ Matches s.pattern w) := by
  have differ : table.Pairwise fun r s => apart r.pattern s.pattern = true := by decide +kernel
  exact differ.imp fun differ w both => not_matches_of_apart differ both.1 both.2

theorem matches_iff_fits {r : Row} (row : r ∈ table) (w : UInt16) : Matches r.pattern w ↔ (r.reads w).Fits w := by
  revert r
  have value := toNat_eq_digits w
  have last := kk_eq_digits w
  have below := (n w).isLt
  -- row by row, both sides come down to the values of the digits
  simp only [table, List.mem_cons, List.not_mem_nil, or_false, forall_eq_or_imp, forall_eq, Matches, String.reduceToList,
    digits, List.forall₂_cons, List.forall₂_nil_left_iff, and_true, Allows, Digit.ofChar?, Char.reduceEq, imp_self,
    Option.elim_some, Option.elim_none, true_and, Fits, Fin.ext_iff, ← UInt16.toNat_inj, ← UInt8.toNat_inj,
    UInt16.reduceToNat, UInt8.reduceToNat, Arithmetic.code]
  omega

theorem exists_row_of_fits {i : Instruction} {w : UInt16} (fits : i.Fits w) : ∃ r ∈ table, r.reads w = i := by
  simp only [table, List.mem_cons, List.not_mem_nil, or_false, exists_eq_or_imp, exists_eq_left]
  cases i with
  | empty | clear | ret => simp
  | jump a | call a | setIndex a | jumpFrom a =>
    obtain ⟨-, rfl⟩ := fits
    simp
  | skipIfByte r b | skipUnlessByte r b | setByte r b | addByte r b | random r b =>
    obtain ⟨-, rfl, rfl⟩ := fits
    simp
  | skipIfSame r s | skipUnlessSame r s =>
    obtain ⟨-, -, rfl, rfl⟩ := fits
    simp
  | arithmetic op r s =>
    obtain ⟨-, -, rfl, rfl⟩ := fits
    cases op <;> simp
  | draw r s k =>
    obtain ⟨-, rfl, rfl, rfl⟩ := fits
    simp
  | skipIfHeld r | skipUnlessHeld r =>
    obtain ⟨-, -, rfl⟩ := fits
    simp
  | readDelay r | awaitKey r | setDelay r | setSound r | addIndex r | glyph r | decimal r | store r | fill r =>
    obtain ⟨-, -, rfl⟩ := fits
    simp
  | unknown v => exact fits.elim

/-! ## Words from their digits -/

/-- Bits that do not overlap add up. -/
theorem toNat_or_of_lt {a b : UInt16} {k m : Nat} (high : a.toNat = 2 ^ k * m) (low : b.toNat < 2 ^ k) :
    (a ||| b).toNat = 2 ^ k * m + b.toNat := by
  rw [UInt16.toNat_or, high, Nat.two_pow_add_eq_or_of_lt low]

theorem toNat_atX (r : Digit) : (atX r).toNat = 2 ^ 8 * r.val := by
  revert r
  decide

theorem fields_stamp {h a : UInt16} (digit : h.toNat < 16) (below : a < 4096) :
    head (stamp h a) = h.toNat ∧ a = nnn (stamp h a) := by
  have high : (h <<< 12).toNat = 2 ^ 12 * h.toNat := by
    simp only [UInt16.toNat_shiftLeft, UInt16.reduceToNat, Nat.reduceMod, Nat.shiftLeft_eq]
    omega
  have low : a.toNat < 2 ^ 12 := UInt16.lt_iff_toNat_lt.mp below
  have value : (stamp h a).toNat = 2 ^ 12 * h.toNat + a.toNat := toNat_or_of_lt high low
  refine ⟨?_, UInt16.toNat_inj.mp ?_⟩
  · rw [head_eq]
    omega
  · rw [nnn_toNat]
    omega

theorem fields_stampX {h : UInt16} (digit : h.toNat < 16) (r : Digit) (b : UInt8) :
    head (stamp h (atX r ||| b.toUInt16)) = h.toNat ∧ r = x (stamp h (atX r ||| b.toUInt16)) ∧
      b = kk (stamp h (atX r ||| b.toUInt16)) := by
  have bound := b.toNat_lt
  have inside := r.isLt
  have value : (atX r ||| b.toUInt16).toNat = 2 ^ 8 * r.val + b.toNat := toNat_or_of_lt (toNat_atX r) bound
  have below : atX r ||| b.toUInt16 < 4096 := by
    rw [UInt16.lt_iff_toNat_lt, value]
    simp only [UInt16.reduceToNat]
    omega
  obtain ⟨first, rest⟩ := fields_stamp digit below
  generalize stamp h (atX r ||| b.toUInt16) = w at first rest
  have low := nnn_toNat w
  rw [← rest, value] at low
  refine ⟨first, Fin.ext ?_, UInt8.toNat_inj.mp ?_⟩
  · rw [x_val]
    omega
  · rw [kk_toNat]
    omega

theorem fields_stampByte {h : UInt16} (digit : h.toNat < 16) (r : Digit) (b : UInt8) :
    head (stamp h (atX r ||| b.toUInt16)) = h.toNat ∧ kk (stamp h (atX r ||| b.toUInt16)) = b ∧
      r = x (stamp h (atX r ||| b.toUInt16)) := by
  obtain ⟨first, second, last⟩ := fields_stampX digit r b
  exact ⟨first, last.symm, second⟩

/-- The last two digits of a word as its last byte. -/
theorem atY_or (s t : Digit) : atY s ||| UInt16.ofNat t.val = (UInt8.ofNat (16 * s.val + t.val)).toUInt16 := by
  revert s t
  decide

theorem fields_stampXY {h : UInt16} (digit : h.toNat < 16) (r s t : Digit) :
    let w := stamp h (atX r ||| atY s ||| UInt16.ofNat t.val)
    head w = h.toNat ∧ r = x w ∧ s = y w ∧ t = n w := by
  have insideS := s.isLt
  have insideT := t.isLt
  obtain ⟨first, second, byte⟩ := fields_stampX digit r (UInt8.ofNat (16 * s.val + t.val))
  rw [← atY_or, ← UInt16.or_assoc] at first second byte
  generalize stamp h (atX r ||| atY s ||| UInt16.ofNat t.val) = w at first second byte ⊢
  have digits := kk_eq_digits w
  have belowY := (y w).isLt
  have belowN := (n w).isLt
  rw [← byte, UInt8.toNat_ofNat'] at digits
  exact ⟨first, second, Fin.ext (by omega), Fin.ext (by omega)⟩

theorem fields_stampPair {h : UInt16} (digit : h.toNat < 16) (r s : Digit) :
    let w := stamp h (atX r ||| atY s)
    head w = h.toNat ∧ n w = 0x0 ∧ r = x w ∧ s = y w := by
  obtain ⟨first, second, third, last⟩ := fields_stampXY digit r s 0x0
  rw [show UInt16.ofNat (0x0 : Digit).val = 0 from rfl, UInt16.or_zero] at first second third last
  exact ⟨first, last.symm, second, third⟩

/-! ## Writing and reading back -/

/-- The word of an instruction has its form. -/
theorem fits_encode {i : Instruction} (known : ∀ w, i ≠ .unknown w) (inRange : ∀ a, i.address? = some a → a < 4096) :
    i.Fits i.encode := by
  cases i with
  | empty | clear | ret => rfl
  | jump a | call a | setIndex a | jumpFrom a => exact fields_stamp (by decide) (inRange a rfl)
  | skipIfByte r b | skipUnlessByte r b | setByte r b | addByte r b | random r b => exact fields_stampX (by decide) r b
  | skipIfSame r s | skipUnlessSame r s => exact fields_stampPair (by decide) r s
  | arithmetic op r s =>
    obtain ⟨first, second, third, last⟩ := fields_stampXY (h := 0x8) (by decide) r s (Digit.low op.code.toUInt8)
    have code : UInt16.ofNat (Digit.low op.code.toUInt8).val = op.code ∧
        op.code.toNat = (Digit.low op.code.toUInt8).val := by
      cases op <;> decide
    rw [code.1] at first second third last
    exact ⟨first, code.2.trans (congrArg Fin.val last), second, third⟩
  | draw r s t => exact fields_stampXY (by decide) r s t
  | skipIfHeld r => exact fields_stampByte (h := 0xE) (by decide) r 0x9E
  | skipUnlessHeld r => exact fields_stampByte (h := 0xE) (by decide) r 0xA1
  | readDelay r => exact fields_stampByte (h := 0xF) (by decide) r 0x07
  | awaitKey r => exact fields_stampByte (h := 0xF) (by decide) r 0x0A
  | setDelay r => exact fields_stampByte (h := 0xF) (by decide) r 0x15
  | setSound r => exact fields_stampByte (h := 0xF) (by decide) r 0x18
  | addIndex r => exact fields_stampByte (h := 0xF) (by decide) r 0x1E
  | glyph r => exact fields_stampByte (h := 0xF) (by decide) r 0x29
  | decimal r => exact fields_stampByte (h := 0xF) (by decide) r 0x33
  | store r => exact fields_stampByte (h := 0xF) (by decide) r 0x55
  | fill r => exact fields_stampByte (h := 0xF) (by decide) r 0x65
  | unknown w => exact absurd rfl (known w)

/-- No two words have the form of the same instruction. -/
theorem eq_of_fits {i : Instruction} {v w : UInt16} (first : i.Fits v) (second : i.Fits w) : v = w := by
  cases i with
  | empty | clear | ret => exact first.trans second.symm
  | jump a | call a | setIndex a | jumpFrom a =>
    exact ext_nnn (first.1.trans second.1.symm) (first.2.symm.trans second.2)
  | skipIfByte r b | skipUnlessByte r b | setByte r b | addByte r b | random r b =>
    obtain ⟨headV, xV, kkV⟩ := first
    obtain ⟨headW, xW, kkW⟩ := second
    exact ext_kk (headV.trans headW.symm) (xV.symm.trans xW) (kkV.symm.trans kkW)
  | skipIfSame r s | skipUnlessSame r s =>
    obtain ⟨headV, nV, xV, yV⟩ := first
    obtain ⟨headW, nW, xW, yW⟩ := second
    exact ext_digits (headV.trans headW.symm) (xV.symm.trans xW) (yV.symm.trans yW) (nV.trans nW.symm)
  | arithmetic op r s =>
    obtain ⟨headV, nV, xV, yV⟩ := first
    obtain ⟨headW, nW, xW, yW⟩ := second
    exact ext_digits (headV.trans headW.symm) (xV.symm.trans xW) (yV.symm.trans yW) (Fin.ext (nV.symm.trans nW))
  | draw r s t =>
    obtain ⟨headV, xV, yV, nV⟩ := first
    obtain ⟨headW, xW, yW, nW⟩ := second
    exact ext_digits (headV.trans headW.symm) (xV.symm.trans xW) (yV.symm.trans yW) (nV.symm.trans nW)
  | unknown u => exact first.elim
  | _ =>
    obtain ⟨headV, kkV, xV⟩ := first
    obtain ⟨headW, kkW, xW⟩ := second
    exact ext_kk (headV.trans headW.symm) (xV.symm.trans xW) (kkV.trans kkW.symm)

theorem encode_decode (w : UInt16) : (decode w).encode = w := by
  rcases fits_decode w with fits | isUnknown
  · have known : ∀ v, decode w ≠ .unknown v := by
      intro v isUnknown
      rw [isUnknown] at fits
      exact fits
    exact eq_of_fits (fits_encode known fun a named => address_lt named) fits
  · rw [isUnknown]
    rfl

/-- The words without a pattern are unknown. -/
theorem decode_eq_unknown_iff_unmatched (w : UInt16) :
    decode w = .unknown w ↔ ∀ r ∈ table, ¬ Matches r.pattern w := by
  rw [decode_eq_unknown_iff]
  constructor
  · intro unfit r row has
    exact unfit (r.reads w) ((matches_iff_fits row w).mp has)
  · intro unmatched i fits
    obtain ⟨r, row, reads⟩ := exists_row_of_fits fits
    exact unmatched r row ((matches_iff_fits row w).mpr (reads ▸ fits))

theorem decode_encode {i : Instruction} (inRange : ∀ a, i.address? = some a → a < 4096)
    (unmatched : ∀ w, i = .unknown w → ∀ r ∈ table, ¬ Matches r.pattern w) : decode i.encode = i := by
  by_cases isUnknown : ∃ w, i = .unknown w
  · obtain ⟨w, rfl⟩ := isUnknown
    exact (decode_eq_unknown_iff_unmatched w).mpr (unmatched w rfl)
  · exact decode_of_fits (fits_encode (fun w eq => isUnknown ⟨w, eq⟩) inRange)

/-- No word has the patterns of two rows of the table. A word with the pattern of a row is the instruction of that row,
whose operands are fields of the word, and the words without a pattern are the unknown ones. The word that an
instruction is written as is read back; it has a pattern, filled with the operands, unless the instruction is
unknown. So no two words are the same instruction. -/
theorem decode_reads_the_table :
    (∀ w, head w = w.toNat / 4096 ∧ (x w).val = w.toNat / 256 % 16 ∧ (y w).val = w.toNat / 16 % 16 ∧
      (n w).val = w.toNat % 16 ∧ (kk w).toNat = w.toNat % 256 ∧ (nnn w).toNat = w.toNat % 4096) ∧
    (table.Pairwise fun r s => ∀ w, ¬ (Matches r.pattern w ∧ Matches s.pattern w)) ∧
    (∀ w, (∀ r ∈ table, Matches r.pattern w → decode w = r.reads w) ∧
      (decode w = .unknown w ↔ ∀ r ∈ table, ¬ Matches r.pattern w) ∧ (∀ v, decode w = .unknown v → v = w) ∧
      (decode w).encode = w) ∧
    Function.Injective decode ∧
    ∀ i : Instruction, (∀ a, i.address? = some a → a < 4096) →
      (∀ w, i = .unknown w → ∀ r ∈ table, ¬ Matches r.pattern w) →
      decode i.encode = i ∧
        ((∀ w, i ≠ .unknown w) → ∃ r ∈ table, Matches r.pattern i.encode ∧ r.reads i.encode = i) := by
  refine ⟨fun w => ⟨head_eq w, x_val w, y_val w, n_val w, kk_toNat w, nnn_toNat w⟩, disjoint_table, fun w => ?_, ?_, ?_⟩
  · refine ⟨fun r row has => ?_, decode_eq_unknown_iff_unmatched w, fun v isUnknown => ?_, encode_decode w⟩
    · exact decode_of_fits ((matches_iff_fits row w).mp has)
    · have same := encode_decode w
      rw [isUnknown] at same
      exact same
  · exact Function.LeftInverse.injective encode_decode
  · intro i inRange unmatched
    refine ⟨decode_encode inRange unmatched, fun known => ?_⟩
    have fits := fits_encode known inRange
    obtain ⟨r, row, reads⟩ := exists_row_of_fits fits
    exact ⟨r, row, (matches_iff_fits row i.encode).mpr (by rwa [reads]), reads⟩

/-- A shift, the unknown word behind it, and a jump to the highest address. -/
theorem reads_back_around_shift :
    decode 0x8ABE = .arithmetic .shiftLeft 0xA 0xB ∧ (∀ r ∈ table, ¬ Matches r.pattern 0x8ABF) ∧
      decode (Instruction.unknown 0x8ABF).encode = .unknown 0x8ABF ∧
      ∃ r ∈ table, Matches r.pattern (Instruction.jumpFrom 0xFFF).encode ∧
        r.reads (Instruction.jumpFrom 0xFFF).encode = .jumpFrom 0xFFF := by
  obtain ⟨-, -, reads, -, back⟩ := decode_reads_the_table
  have row : (⟨"8XYE", fun w => .arithmetic .shiftLeft (x w) (y w)⟩ : Row) ∈ table := by simp [table]
  have has : Matches "8XYE" 0x8ABE := (matches_iff_fits row 0x8ABE).mpr ⟨rfl, rfl, rfl, rfl⟩
  have unmatched : ∀ r ∈ table, ¬ Matches r.pattern 0x8ABF := (reads 0x8ABF).2.1.mp rfl
  refine ⟨(reads 0x8ABE).1 _ row has, unmatched, ?_, ?_⟩
  · refine (back (.unknown 0x8ABF) nofun ?_).1
    rintro w ⟨⟩
    exact unmatched
  · refine (back (.jumpFrom 0xFFF) ?_ nofun).2 nofun
    rintro a ⟨⟩
    decide

end Instruction
end Chip8
