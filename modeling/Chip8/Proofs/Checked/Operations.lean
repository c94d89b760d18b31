import Chip8.Hex

/-!
# Checked operations

The operations that a cycle is made of, each with its check: whether a byte is a digit, a place lies inside an
array, a shift is narrower than the number, a result fits. An operation whose check fails has no result. The
lemma beside each operation gives its result where the check passes.
-/

namespace Chip8

/-- Why an operation has no result. -/
inductive Fault
  /-- A byte above fifteen was taken for a digit. -/
  | digit
  /-- A place lies outside the array. -/
  | index
  /-- A shift is at least as wide as the number. -/
  | shift
  /-- A result does not fit. -/
  | overflow
deriving DecidableEq, Repr

namespace Checked

@[simp] theorem ok_bind {α β : Type} (a : α) (f : α → Except Fault β) : (Except.ok a >>= f) = f a := rfl

@[simp] theorem pure_eq_ok {α : Type} (a : α) : (pure a : Except Fault α) = .ok a := rfl

/-- Goes on if a check passes. -/
def require (check : Prop) [Decidable check] (fault : Fault) : Except Fault Unit :=
  if check then .ok () else .error fault

theorem require_of {check : Prop} [Decidable check] (passes : check) (fault : Fault) :
    require check fault = .ok () :=
  if_pos passes

/-! ## Arithmetic -/

def add8 (a b : UInt8) : Except Fault UInt8 := do
  require (a.toNat + b.toNat < 256) .overflow
  return a + b

theorem add8_eq {a b : UInt8} (fits : a.toNat + b.toNat < 256) : add8 a b = .ok (a + b) := by
  rw [add8, require_of fits]
  rfl

def add16 (a b : UInt16) : Except Fault UInt16 := do
  require (a.toNat + b.toNat < 65536) .overflow
  return a + b

theorem add16_eq {a b : UInt16} (fits : a.toNat + b.toNat < 65536) : add16 a b = .ok (a + b) := by
  rw [add16, require_of fits]
  rfl

def mul16 (a b : UInt16) : Except Fault UInt16 := do
  require (a.toNat * b.toNat < 65536) .overflow
  return a * b

theorem mul16_eq {a b : UInt16} (fits : a.toNat * b.toNat < 65536) : mul16 a b = .ok (a * b) := by
  rw [mul16, require_of fits]
  rfl

/-- The sum of two sizes. A size has sixteen bits at least, and is held to no more of them here. -/
def add (a b : Nat) : Except Fault Nat := do
  require (a + b < 65536) .overflow
  return a + b

theorem add_eq {a b : Nat} (fits : a + b < 65536) : add a b = .ok (a + b) := by
  rw [add, require_of fits]
  rfl

def sub (a b : Nat) : Except Fault Nat := do
  require (b ≤ a) .overflow
  return a - b

theorem sub_eq {a b : Nat} (fits : b ≤ a) : sub a b = .ok (a - b) := by
  rw [sub, require_of fits]
  rfl

/-! ## Shifts -/

def shiftRight8 (b : UInt8) (n : Nat) : Except Fault UInt8 := do
  require (n < 8) .shift
  return b >>> UInt8.ofNat n

theorem shiftRight8_eq {n : Nat} (narrow : n < 8) (b : UInt8) : shiftRight8 b n = .ok (b >>> UInt8.ofNat n) := by
  rw [shiftRight8, require_of narrow]
  rfl

def shiftLeft8 (b : UInt8) (n : Nat) : Except Fault UInt8 := do
  require (n < 8) .shift
  return b <<< UInt8.ofNat n

theorem shiftLeft8_eq {n : Nat} (narrow : n < 8) (b : UInt8) : shiftLeft8 b n = .ok (b <<< UInt8.ofNat n) := by
  rw [shiftLeft8, require_of narrow]
  rfl

def shiftRight16 (w : UInt16) (n : Nat) : Except Fault UInt16 := do
  require (n < 16) .shift
  return w >>> UInt16.ofNat n

theorem shiftRight16_eq {n : Nat} (narrow : n < 16) (w : UInt16) : shiftRight16 w n = .ok (w >>> UInt16.ofNat n) := by
  rw [shiftRight16, require_of narrow]
  rfl

/-! ## Digits and arrays -/

/-- The digit equal to a byte. -/
def digit (b : UInt8) : Except Fault Digit := (Digit.ofByte b).mapError fun _ => .digit

theorem digit_eq {b : UInt8} {d : Digit} (same : b.toNat = d.val) : digit b = .ok d := by
  have small : b.toNat < 16 := by omega
  rw [digit, Digit.ofByte, dif_pos small]
  exact congrArg Except.ok (Fin.ext same)

/-- The number of a place in an array. -/
def place (n i : Nat) : Except Fault (Fin n) := if inside : i < n then .ok ⟨i, inside⟩ else .error .index

theorem place_eq {n i : Nat} (inside : i < n) : place n i = .ok ⟨i, inside⟩ := dif_pos inside

def get {α : Type} {n : Nat} (xs : Vector α n) (i : Nat) : Except Fault α := do
  let k ← place n i
  return xs.get k

theorem get_eq {α : Type} {n i : Nat} (xs : Vector α n) (inside : i < n) : get xs i = .ok xs[i] := by
  rw [get, place_eq inside]
  rfl

def set {α : Type} {n : Nat} (xs : Vector α n) (i : Nat) (a : α) : Except Fault (Vector α n) := do
  let k ← place n i
  return xs.set k.val a k.isLt

theorem set_eq {α : Type} {n i : Nat} (xs : Vector α n) (inside : i < n) (a : α) :
    set xs i a = .ok (xs.set i a inside) := by
  rw [set, place_eq inside]
  rfl

/-! ## Loops -/

/-- A loop over the numbers below a bound succeeds if each pass leads from one of a row of states to the next. -/
theorem loop_eq {σ : Type} {f : σ → Nat → Except Fault σ} (state : Nat → σ) {n : Nat}
    (pass : ∀ k < n, f (state k) k = .ok (state (k + 1))) :
    (List.range n).foldlM f (state 0) = .ok (state n) := by
  induction n with
  | zero => rfl
  | succ n ih =>
    rw [List.range_succ, List.foldlM_append, ih fun k below => pass k (by omega), ok_bind]
    simp [pass n (by omega)]

end Checked
end Chip8
