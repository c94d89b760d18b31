import Chip8.Instruction.Decode

/-!
# The forms of words

A word is an instruction if its digits have the form of one (`Instruction.Fits`). Decoding finds the instruction
whose form a word has (`decode_of_fits`, `fits_of_decode`), and the words that have no form are unknown
(`decode_eq_unknown_iff`).
-/

namespace Chip8

namespace Word

theorem head_eq (w : UInt16) : head w = w.toNat / 4096 := by
  simp [head, Nat.shiftRight_eq_div_pow]

theorem head_lt (w : UInt16) : head w < 16 := by
  have bound := w.toNat_lt
  rw [head_eq]
  omega

theorem x_val (w : UInt16) : (x w).val = w.toNat / 256 % 16 := by
  simp [x, Digit.low, Nat.shiftRight_eq_div_pow]

theorem y_val (w : UInt16) : (y w).val = w.toNat / 16 % 16 := by
  simp [y, Digit.low, Nat.shiftRight_eq_div_pow]

theorem n_val (w : UInt16) : (n w).val = w.toNat % 16 := by
  simp [n, Digit.low]

theorem kk_toNat (w : UInt16) : (kk w).toNat = w.toNat % 256 := by
  simp [kk]

theorem nnn_toNat (w : UInt16) : (nnn w).toNat = w.toNat % 4096 := by
  rw [nnn, UInt16.toNat_and]
  exact Nat.and_two_pow_sub_one_eq_mod w.toNat 12

theorem nnn_lt (w : UInt16) : nnn w < 4096 := by
  rw [UInt16.lt_iff_toNat_lt, nnn_toNat]
  exact Nat.mod_lt _ (by decide)

theorem toNat_eq_digits (w : UInt16) : w.toNat = 4096 * head w + 256 * (x w).val + 16 * (y w).val + (n w).val := by
  have bound := w.toNat_lt
  rw [head_eq, x_val, y_val, n_val]
  omega

/-- The last two digits of a word are those of its last byte. -/
theorem kk_eq_digits (w : UInt16) : (kk w).toNat = 16 * (y w).val + (n w).val := by
  rw [kk_toNat, y_val, n_val]
  omega

/-- The last digit of a word, as a word and as a number. -/
theorem masked_n (w : UInt16) : w &&& 0x000F = UInt16.ofNat (n w).val := by
  apply UInt16.toNat_inj.mp
  rw [UInt16.toNat_and, UInt16.toNat_ofNat', n_val]
  change w.toNat &&& 2 ^ 4 - 1 = w.toNat % 2 ^ 4 % 2 ^ 16
  rw [Nat.and_two_pow_sub_one_eq_mod]
  omega

end Word

namespace Arithmetic

theorem ofCode?_code (op : Arithmetic) : ofCode? op.code = some op := by
  cases op <;> rfl

theorem code_of_ofCode? {c : UInt16} {op : Arithmetic} (found : ofCode? c = some op) : op.code = c := by
  simpa using List.find?_some found

end Arithmetic

namespace Instruction
open Word

/-- Whether the digits of a word have the form of an instruction. -/
def Fits (w : UInt16) : Instruction → Prop
  | .empty => w = 0x0000
  | .clear => w = 0x00E0
  | .ret => w = 0x00EE
  | .jump a => head w = 0x1 ∧ a = nnn w
  | .call a => head w = 0x2 ∧ a = nnn w
  | .skipIfByte r b => head w = 0x3 ∧ r = x w ∧ b = kk w
  | .skipUnlessByte r b => head w = 0x4 ∧ r = x w ∧ b = kk w
  | .skipIfSame r s => head w = 0x5 ∧ n w = 0x0 ∧ r = x w ∧ s = y w
  | .setByte r b => head w = 0x6 ∧ r = x w ∧ b = kk w
  | .addByte r b => head w = 0x7 ∧ r = x w ∧ b = kk w
  | .arithmetic op r s => head w = 0x8 ∧ op.code.toNat = (n w).val ∧ r = x w ∧ s = y w
  | .skipUnlessSame r s => head w = 0x9 ∧ n w = 0x0 ∧ r = x w ∧ s = y w
  | .setIndex a => head w = 0xA ∧ a = nnn w
  | .jumpFrom a => head w = 0xB ∧ a = nnn w
  | .random r b => head w = 0xC ∧ r = x w ∧ b = kk w
  | .draw r s k => head w = 0xD ∧ r = x w ∧ s = y w ∧ k = n w
  | .skipIfHeld r => head w = 0xE ∧ kk w = 0x9E ∧ r = x w
  | .skipUnlessHeld r => head w = 0xE ∧ kk w = 0xA1 ∧ r = x w
  | .readDelay r => head w = 0xF ∧ kk w = 0x07 ∧ r = x w
  | .awaitKey r => head w = 0xF ∧ kk w = 0x0A ∧ r = x w
  | .setDelay r => head w = 0xF ∧ kk w = 0x15 ∧ r = x w
  | .setSound r => head w = 0xF ∧ kk w = 0x18 ∧ r = x w
  | .addIndex r => head w = 0xF ∧ kk w = 0x1E ∧ r = x w
  | .glyph r => head w = 0xF ∧ kk w = 0x29 ∧ r = x w
  | .decimal r => head w = 0xF ∧ kk w = 0x33 ∧ r = x w
  | .store r => head w = 0xF ∧ kk w = 0x55 ∧ r = x w
  | .fill r => head w = 0xF ∧ kk w = 0x65 ∧ r = x w
  | .unknown _ => False

/-! ## Every word has the form that it is decoded by -/

private theorem fits_decodeSystem (w : UInt16) :
    (decodeSystem w).Fits w ∨ decodeSystem w = .unknown w := by
  unfold decodeSystem
  by_cases isEmpty : w = 0x0000
  · rw [if_pos isEmpty]
    exact .inl isEmpty
  · by_cases clears : w = 0x00E0
    · rw [if_neg isEmpty, if_pos clears]
      exact .inl clears
    · by_cases returns : w = 0x00EE
      · rw [if_neg isEmpty, if_neg clears, if_pos returns]
        exact .inl returns
      · rw [if_neg isEmpty, if_neg clears, if_neg returns]
        exact .inr rfl

private theorem fits_decodeArithmetic {w : UInt16} (first : head w = 0x8) :
    (decodeArithmetic w).Fits w ∨ decodeArithmetic w = .unknown w := by
  unfold decodeArithmetic
  split
  case h_1 op found =>
    refine .inl ⟨first, ?_, rfl, rfl⟩
    have inWord : (n w).val < 2 ^ 16 := Nat.lt_trans (n w).isLt (by decide)
    rw [Arithmetic.code_of_ofCode? found, masked_n, UInt16.toNat_ofNat', Nat.mod_eq_of_lt inWord]
  case h_2 => exact .inr rfl

private theorem fits_decodeKey {w : UInt16} (first : head w = 0xE) :
    (decodeKey w).Fits w ∨ decodeKey w = .unknown w := by
  unfold decodeKey
  split
  case h_1 last => exact .inl ⟨first, UInt8.toNat_inj.mp last, rfl⟩
  case h_2 last => exact .inl ⟨first, UInt8.toNat_inj.mp last, rfl⟩
  case h_3 => exact .inr rfl

private theorem fits_decodeTransfer {w : UInt16} (first : head w = 0xF) :
    (decodeTransfer w).Fits w ∨ decodeTransfer w = .unknown w := by
  unfold decodeTransfer
  split
  case h_10 => exact .inr rfl
  all_goals
    rename_i last
    exact .inl ⟨first, UInt8.toNat_inj.mp last, rfl⟩

theorem fits_decode (w : UInt16) : (decode w).Fits w ∨ decode w = .unknown w := by
  unfold decode
  split
  case h_1 => exact fits_decodeSystem w
  case h_2 first | h_3 first | h_11 first | h_12 first => exact .inl ⟨first, rfl⟩
  case h_4 first | h_5 first | h_7 first | h_8 first | h_13 first => exact .inl ⟨first, rfl, rfl⟩
  case h_14 first => exact .inl ⟨first, rfl, rfl, rfl⟩
  case h_6 first | h_10 first =>
    by_cases last : n w = 0
    · rw [if_pos last]
      exact .inl ⟨first, last, rfl, rfl⟩
    · rw [if_neg last]
      exact .inr rfl
  case h_9 first => exact fits_decodeArithmetic first
  case h_15 first => exact fits_decodeKey first
  case h_16 =>
    have bound := head_lt w
    exact fits_decodeTransfer (by grind)

theorem fits_of_decode {w : UInt16} {i : Instruction} (found : decode w = i) (known : i ≠ .unknown w) : i.Fits w := by
  subst found
  exact (fits_decode w).resolve_right known

/-! ## A word is decoded by the form that it has -/

theorem decode_of_fits {w : UInt16} {i : Instruction} (fits : i.Fits w) : decode w = i := by
  cases i with
  | empty | clear | ret =>
    cases fits
    rfl
  | jump a | call a | setIndex a | jumpFrom a =>
    obtain ⟨first, rfl⟩ := fits
    simp [decode, first]
  | skipIfByte r b | skipUnlessByte r b | setByte r b | addByte r b | random r b =>
    obtain ⟨first, rfl, rfl⟩ := fits
    simp [decode, first]
  | skipIfSame r s | skipUnlessSame r s =>
    obtain ⟨first, last, rfl, rfl⟩ := fits
    simp [decode, first, last]
  | arithmetic op r s =>
    obtain ⟨first, code, rfl, rfl⟩ := fits
    have found : Arithmetic.ofCode? (w &&& 0x000F) = some op := by
      rw [masked_n, ← code, UInt16.ofNat_toNat, Arithmetic.ofCode?_code]
    simp [decode, first, decodeArithmetic, found]
  | draw r s k =>
    obtain ⟨first, rfl, rfl, rfl⟩ := fits
    simp [decode, first]
  | skipIfHeld r | skipUnlessHeld r =>
    obtain ⟨first, last, rfl⟩ := fits
    simp [decode, first, decodeKey, last]
  | readDelay r | awaitKey r | setDelay r | setSound r | addIndex r | glyph r | decimal r | store r | fill r =>
    obtain ⟨first, last, rfl⟩ := fits
    simp [decode, first, decodeTransfer, last]
  | unknown v => exact fits.elim

theorem decode_eq_unknown_iff (w : UInt16) : decode w = .unknown w ↔ ∀ i : Instruction, ¬ i.Fits w := by
  constructor
  · intro isUnknown i fits
    rw [decode_of_fits fits] at isUnknown
    rw [isUnknown] at fits
    exact fits
  · intro unfit
    exact (fits_decode w).resolve_left (unfit _)

end Instruction
end Chip8
