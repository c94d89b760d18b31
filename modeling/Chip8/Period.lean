import Chip8.Config

/-!
# Periods

The time between two ticks and the time between two cycles, in nanoseconds. A cycle takes the quotient of one
second by the clock speed, which is rounded twice: as a number in double precision, to 53 binary digits, and then
to whole nanoseconds. Both times a tie goes to the even neighbour (`nearest`). The two roundings together stay
within half a nanosecond of the exact quotient (`cyclePeriod_within_half`).
-/

namespace Chip8

/-- Nanoseconds in a second. -/
def second : Nat := 1000000000

/-- The time between two ticks of the timers. -/
def tickPeriod : Nat := second / timerRate

/-- The whole number nearest to a quotient; of two that are equally near, the even one. -/
def nearest (a b : Nat) : Nat :=
  if 2 * (a % b) < b ∨ 2 * (a % b) = b ∧ a / b % 2 = 0 then a / b else a / b + 1

/-- By how much one is multiplied so that its quotient by a number has 53 binary digits before the point. -/
def binaryScale (n : Nat) : Nat := 1 <<< (53 + n.log2)

/-- The time between two cycles: one by the clock speed as a number in double precision, of which the nanoseconds
are rounded to a whole number, ties to even. To round the exact quotient once would not do: at 5120 it is a tie,
and the number in double precision lies above it. A clock that never ticks has no period. -/
def cyclePeriod (clock : UInt32) : Nat :=
  match clock.toNat with
  | 0 => 0
  | n@(_ + 1) => nearest (nearest (binaryScale n) n * second) (binaryScale n)

section nearest
variable {a b : Nat}

theorem two_mul_nearest_mul_le (positive : 0 < b) : 2 * (nearest a b * b) ≤ 2 * a + b := by
  have parts := Nat.div_add_mod' a b
  have small := Nat.mod_lt a positive
  unfold nearest
  split
  case isTrue => omega
  case isFalse far => rw [Nat.add_one_mul (a / b)]; omega

theorem two_mul_le_nearest_mul (positive : 0 < b) : 2 * a ≤ 2 * (nearest a b * b) + b := by
  have parts := Nat.div_add_mod' a b
  have small := Nat.mod_lt a positive
  unfold nearest
  split
  case isTrue near => omega
  case isFalse => rw [Nat.add_one_mul (a / b)]; omega

theorem nearest_even_of_tie (tie : 2 * (a % b) = b) : nearest a b % 2 = 0 := by
  unfold nearest
  split <;> omega

end nearest

/-! A rounded quotient `c` of `q * s` by `p`, where `q` is a rounded quotient of `p` by `n`, is one of `s` by `n`: the
rounding of `q` costs at most `n * s` in the sums below, which is less than one `p`, so too little to be seen. -/

section rescaled
variable {n s p q c : Nat}

theorem mul_le_of_rescaled (fine : n * s < p) (inner : 2 * (q * n) ≤ 2 * p + n)
    (outer : 2 * (c * p) ≤ 2 * (q * s) + p) : 2 * (c * n) ≤ 2 * s + n := by
  have : 2 * (c * n) * p < (2 * s + n + 1) * p :=
    calc 2 * (c * n) * p = 2 * (c * p) * n := by grind
      _ ≤ (2 * (q * s) + p) * n := Nat.mul_le_mul_right n outer
      _ = 2 * (q * n) * s + p * n := by grind
      _ ≤ (2 * p + n) * s + p * n := Nat.add_le_add_right (Nat.mul_le_mul_right s inner) _
      _ = (2 * s + n) * p + n * s := by grind
      _ < (2 * s + n) * p + p := Nat.add_lt_add_left fine _
      _ = (2 * s + n + 1) * p := (Nat.succ_mul _ _).symm
  exact Nat.le_of_lt_succ (Nat.lt_of_mul_lt_mul_right this)

theorem le_mul_of_rescaled (fine : n * s < p) (inner : 2 * p ≤ 2 * (q * n) + n)
    (outer : 2 * (q * s) ≤ 2 * (c * p) + p) : 2 * s ≤ 2 * (c * n) + n := by
  have : 2 * s * p < (2 * (c * n) + n + 1) * p :=
    calc 2 * s * p = 2 * p * s := Nat.mul_right_comm _ _ _
      _ ≤ (2 * (q * n) + n) * s := Nat.mul_le_mul_right s inner
      _ = 2 * (q * s) * n + n * s := by grind
      _ ≤ (2 * (c * p) + p) * n + n * s := Nat.add_le_add_right (Nat.mul_le_mul_right n outer) _
      _ = (2 * (c * n) + n) * p + n * s := by grind
      _ < (2 * (c * n) + n) * p + p := Nat.add_lt_add_left fine _
      _ = (2 * (c * n) + n + 1) * p := (Nat.succ_mul _ _).symm
  exact Nat.le_of_lt_succ (Nat.lt_of_mul_lt_mul_right this)

end rescaled

/-! The quotient of the scale by a number lies between 2^52 and 2^53, so that rounding it keeps 53 binary digits. -/

theorem shiftLeft_lt_binaryScale (n : Nat) : n <<< 52 < binaryScale n := by
  have below : n < 2 ^ (n.log2 + 1) := Nat.lt_log2_self
  calc n <<< 52 = n * 2 ^ 52 := Nat.shiftLeft_eq n 52
    _ < 2 ^ (n.log2 + 1) * 2 ^ 52 := Nat.mul_lt_mul_of_pos_right below (by decide)
    _ = 2 ^ (53 + n.log2) := by rw [← Nat.pow_add]; congr 1; omega
    _ = binaryScale n := (Nat.one_shiftLeft _).symm

theorem binaryScale_le_shiftLeft {n : Nat} (positive : 0 < n) : binaryScale n ≤ n <<< 53 := by
  have least : 2 ^ n.log2 ≤ n := Nat.log2_self_le (Nat.ne_of_gt positive)
  calc binaryScale n = 2 ^ (53 + n.log2) := Nat.one_shiftLeft _
    _ = 2 ^ n.log2 * 2 ^ 53 := by rw [← Nat.pow_add]; congr 1; omega
    _ ≤ n * 2 ^ 53 := Nat.mul_le_mul_right _ least
    _ = n <<< 53 := (Nat.shiftLeft_eq n 53).symm

theorem mul_second_lt_binaryScale (n : Nat) : n * second < binaryScale n := by
  have small : n * second ≤ n <<< 52 := by
    rw [Nat.shiftLeft_eq]
    exact Nat.mul_le_mul_left n (by decide)
  exact Nat.lt_of_le_of_lt small (shiftLeft_lt_binaryScale n)

theorem cyclePeriod_eq {clock : UInt32} (ticks : clock ≠ 0) :
    cyclePeriod clock =
      nearest (nearest (binaryScale clock.toNat) clock.toNat * second) (binaryScale clock.toNat) := by
  unfold cyclePeriod
  split
  case h_1 zero => exact absurd (UInt32.toNat_inj.mp zero) ticks
  case h_2 eq => rw [eq]

/-- The time between two cycles is a second by the clock speed to within half a nanosecond. -/
theorem cyclePeriod_within_half {clock : UInt32} (ticks : clock ≠ 0) :
    2 * (cyclePeriod clock * clock.toNat) ≤ 2 * second + clock.toNat ∧
      2 * second ≤ 2 * (cyclePeriod clock * clock.toNat) + clock.toNat := by
  have positive : 0 < clock.toNat := Nat.pos_of_ne_zero fun zero => ticks (UInt32.toNat_inj.mp zero)
  have fine := mul_second_lt_binaryScale clock.toNat
  have scaled : 0 < binaryScale clock.toNat := Nat.zero_lt_of_lt fine
  rw [cyclePeriod_eq ticks]
  constructor
  · exact mul_le_of_rescaled fine (two_mul_nearest_mul_le positive) (two_mul_nearest_mul_le scaled)
  · exact le_mul_of_rescaled fine (two_mul_le_nearest_mul positive) (two_mul_le_nearest_mul scaled)

example : [1024, 5120, 16000000, 80000000, 500].map cyclePeriod = [976562, 195313, 62, 12, 2000000] := by
  decide +kernel

end Chip8
