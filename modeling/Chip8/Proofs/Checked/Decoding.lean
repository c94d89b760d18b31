import Chip8.Proofs.Checked.Operations
import Chip8.Proofs.Forms
import Mathlib.Data.Fintype.Basic
import Mathlib.Tactic.FinCases

/-!
# Checked decoding

The fields of a word are masked and shifted to the right, and three of them have to be digits. They always are,
and the instruction chosen by the digits is the one that the word stands for (`decode_eq`).
-/

namespace Chip8

namespace Checked
open Word

def chooseSystem (w : UInt16) (x y n : Digit) : Instruction :=
  match x.val, y.val, n.val with
  | 0x0, 0x0, 0x0 => .empty
  | 0x0, 0xE, 0x0 => .clear
  | 0x0, 0xE, 0xE => .ret
  | _, _, _ => .unknown w

def chooseArithmetic (w : UInt16) (x y n : Digit) : Instruction :=
  match n.val with
  | 0x0 => .arithmetic .copy x y
  | 0x1 => .arithmetic .or x y
  | 0x2 => .arithmetic .and x y
  | 0x3 => .arithmetic .xor x y
  | 0x4 => .arithmetic .add x y
  | 0x5 => .arithmetic .sub x y
  | 0x6 => .arithmetic .shiftRight x y
  | 0x7 => .arithmetic .subReverse x y
  | 0xE => .arithmetic .shiftLeft x y
  | _ => .unknown w

def chooseKey (w : UInt16) (x y n : Digit) : Instruction :=
  match y.val, n.val with
  | 0x9, 0xE => .skipIfHeld x
  | 0xA, 0x1 => .skipUnlessHeld x
  | _, _ => .unknown w

def chooseTransfer (w : UInt16) (x y n : Digit) : Instruction :=
  match y.val, n.val with
  | 0x0, 0x7 => .readDelay x
  | 0x0, 0xA => .awaitKey x
  | 0x1, 0x5 => .setDelay x
  | 0x1, 0x8 => .setSound x
  | 0x1, 0xE => .addIndex x
  | 0x2, 0x9 => .glyph x
  | 0x3, 0x3 => .decimal x
  | 0x5, 0x5 => .store x
  | 0x6, 0x5 => .fill x
  | _, _ => .unknown w

/-- The instruction that the digits of a word choose, with the operands that were taken from it. -/
def choose (w : UInt16) (head : Nat) (x y n : Digit) (kk : UInt8) (nnn : UInt16) : Instruction :=
  match head with
  | 0x0 => chooseSystem w x y n
  | 0x1 => .jump nnn
  | 0x2 => .call nnn
  | 0x3 => .skipIfByte x kk
  | 0x4 => .skipUnlessByte x kk
  | 0x5 => if n = 0 then .skipIfSame x y else .unknown w
  | 0x6 => .setByte x kk
  | 0x7 => .addByte x kk
  | 0x8 => chooseArithmetic w x y n
  | 0x9 => if n = 0 then .skipUnlessSame x y else .unknown w
  | 0xA => .setIndex nnn
  | 0xB => .jumpFrom nnn
  | 0xC => .random x kk
  | 0xD => .draw x y n
  | 0xE => chooseKey w x y n
  | _ => chooseTransfer w x y n

def decode (w : UInt16) : Except Fault Instruction := do
  let first := (← shiftRight16 (w &&& 0xF000) 12).toUInt8
  let second := (← shiftRight16 (w &&& 0x0F00) 8).toUInt8
  let third := (← shiftRight16 (w &&& 0x00F0) 4).toUInt8
  let last := (w &&& 0x000F).toUInt8
  let x ← digit second
  let y ← digit third
  let n ← digit last
  return choose w first.toNat x y n (w &&& 0x00FF).toUInt8 (w &&& 0x0FFF)

/-! ## The fields -/

/-- Four bits of a word, masked in their place and shifted down. -/
theorem toNat_masked {mask : UInt16} {k : Nat} (narrow : k < 16) (four : mask.toNat = 15 <<< k) (w : UInt16) :
    ((w &&& mask) >>> UInt16.ofNat k).toUInt8.toNat = w.toNat >>> k % 16 := by
  have inWord : (UInt16.ofNat k).toNat % 16 = k := by
    rw [UInt16.toNat_ofNat']
    omega
  rw [UInt16.toNat_toUInt8, UInt16.toNat_shiftRight, UInt16.toNat_and, four, inWord, Nat.shiftRight_and_distrib,
    Nat.shiftLeft_shiftRight, Nat.and_two_pow_sub_one_eq_mod _ 4]
  omega

theorem first_eq (w : UInt16) : ((w &&& 0xF000) >>> UInt16.ofNat 12).toUInt8.toNat = head w := by
  rw [toNat_masked (by decide) (by decide), head_eq]
  have bound := w.toNat_lt
  omega

theorem digit_second (w : UInt16) : digit ((w &&& 0x0F00) >>> UInt16.ofNat 8).toUInt8 = .ok (x w) := by
  apply digit_eq
  rw [toNat_masked (by decide) (by decide), x_val]
  omega

theorem digit_third (w : UInt16) : digit ((w &&& 0x00F0) >>> UInt16.ofNat 4).toUInt8 = .ok (y w) := by
  apply digit_eq
  rw [toNat_masked (by decide) (by decide), y_val]
  omega

theorem digit_last (w : UInt16) : digit (w &&& 0x000F).toUInt8 = .ok (n w) := by
  apply digit_eq
  rw [UInt16.toNat_toUInt8, UInt16.toNat_and, n_val]
  change (w.toNat &&& 2 ^ 4 - 1) % 2 ^ 8 = w.toNat % 2 ^ 4
  rw [Nat.and_two_pow_sub_one_eq_mod]
  omega

theorem masked_kk (w : UInt16) : (w &&& 0x00FF).toUInt8 = kk w := by
  apply UInt8.toNat_inj.mp
  rw [kk_toNat, UInt16.toNat_toUInt8, UInt16.toNat_and]
  change (w.toNat &&& 2 ^ 8 - 1) % 2 ^ 8 = w.toNat % 2 ^ 8
  rw [Nat.and_two_pow_sub_one_eq_mod]
  omega

/-! ## The choice -/

theorem chooseSystem_eq {w : UInt16} (first : head w = 0) :
    chooseSystem w (x w) (y w) (n w) = Instruction.decodeSystem w := by
  have value := toNat_eq_digits w
  rw [first] at value
  unfold chooseSystem
  split
  case h_1 hx hy hn =>
    have word : w = 0x0000 := UInt16.toNat_inj.mp (by rw [value, hx, hy, hn]; rfl)
    rw [word]
    rfl
  case h_2 hx hy hn =>
    have word : w = 0x00E0 := UInt16.toNat_inj.mp (by rw [value, hx, hy, hn]; rfl)
    rw [word]
    rfl
  case h_3 hx hy hn =>
    have word : w = 0x00EE := UInt16.toNat_inj.mp (by rw [value, hx, hy, hn]; rfl)
    rw [word]
    rfl
  case h_4 notEmpty notClear notRet =>
    have other : w ≠ 0x0000 ∧ w ≠ 0x00E0 ∧ w ≠ 0x00EE := by
      refine ⟨?_, ?_, ?_⟩
      · rintro rfl
        exact notEmpty rfl rfl rfl
      · rintro rfl
        exact notClear rfl rfl rfl
      · rintro rfl
        exact notRet rfl rfl rfl
    rw [Instruction.decodeSystem, if_neg other.1, if_neg other.2.1, if_neg other.2.2]

theorem chooseArithmetic_eq (w : UInt16) :
    chooseArithmetic w (x w) (y w) (n w) = Instruction.decodeArithmetic w := by
  -- The last digit is compared as a word there, and as a number here.
  rw [Instruction.decodeArithmetic, masked_n]
  generalize n w = last
  fin_cases last <;> rfl

theorem chooseKey_eq (w : UInt16) : chooseKey w (x w) (y w) (n w) = Instruction.decodeKey w := by
  have value := kk_eq_digits w
  have bound := (n w).isLt
  unfold Instruction.decodeKey
  split
  case h_1 => simp only [chooseKey, (by omega : (y w).val = 0x9), (by omega : (n w).val = 0xE)]
  case h_2 => simp only [chooseKey, (by omega : (y w).val = 0xA), (by omega : (n w).val = 0x1)]
  case h_3 =>
    unfold chooseKey
    split <;> simp_all

theorem chooseTransfer_eq (w : UInt16) : chooseTransfer w (x w) (y w) (n w) = Instruction.decodeTransfer w := by
  have value := kk_eq_digits w
  have bound := (n w).isLt
  unfold Instruction.decodeTransfer
  split
  case h_1 => simp only [chooseTransfer, (by omega : (y w).val = 0x0), (by omega : (n w).val = 0x7)]
  case h_2 => simp only [chooseTransfer, (by omega : (y w).val = 0x0), (by omega : (n w).val = 0xA)]
  case h_3 => simp only [chooseTransfer, (by omega : (y w).val = 0x1), (by omega : (n w).val = 0x5)]
  case h_4 => simp only [chooseTransfer, (by omega : (y w).val = 0x1), (by omega : (n w).val = 0x8)]
  case h_5 => simp only [chooseTransfer, (by omega : (y w).val = 0x1), (by omega : (n w).val = 0xE)]
  case h_6 => simp only [chooseTransfer, (by omega : (y w).val = 0x2), (by omega : (n w).val = 0x9)]
  case h_7 => simp only [chooseTransfer, (by omega : (y w).val = 0x3), (by omega : (n w).val = 0x3)]
  case h_8 => simp only [chooseTransfer, (by omega : (y w).val = 0x5), (by omega : (n w).val = 0x5)]
  case h_9 => simp only [chooseTransfer, (by omega : (y w).val = 0x6), (by omega : (n w).val = 0x5)]
  case h_10 =>
    unfold chooseTransfer
    split <;> simp_all

theorem choose_eq (w : UInt16) : choose w (head w) (x w) (y w) (n w) (kk w) (nnn w) = Instruction.decode w := by
  unfold choose Instruction.decode
  generalize first : head w = k
  match k, first with
  | 0x0, first => exact chooseSystem_eq first
  | 0x1, _ | 0x2, _ | 0x3, _ | 0x4, _ | 0x5, _ | 0x6, _ | 0x7, _ => rfl
  | 0x8, _ => exact chooseArithmetic_eq w
  | 0x9, _ | 0xA, _ | 0xB, _ | 0xC, _ | 0xD, _ => rfl
  | 0xE, _ => exact chooseKey_eq w
  | _ + 0xF, _ => exact chooseTransfer_eq w

/-- Every word is decoded without a failure, into the instruction that it stands for. -/
theorem decode_eq (w : UInt16) : decode w = .ok (Instruction.decode w) := by
  rw [decode, shiftRight16_eq (by decide), ok_bind, shiftRight16_eq (by decide), ok_bind, shiftRight16_eq (by decide),
    ok_bind, digit_second, ok_bind, digit_third, ok_bind, digit_last, ok_bind, first_eq, masked_kk, ← choose_eq]
  rfl

end Checked
end Chip8
