/-!
# Tables

Vectors that are read at a number known to be in range. Reading after writing, and the tables that are made
entry by entry.
-/

namespace Chip8.Table

theorem get_eq {α : Type} {n : Nat} (xs : Vector α n) (i : Fin n) : xs.get i = xs[i.val] := rfl

/-- A write is seen at its place and nowhere else. -/
@[simp] theorem get_set {α : Type} {n : Nat} (xs : Vector α n) (i j : Fin n) (a : α) (inside : i.val < n) :
    (xs.set i.val a inside).get j = if i = j then a else xs.get j := by
  simp [get_eq, Vector.getElem_set, Fin.ext_iff]

@[simp] theorem get_replicate {α : Type} {n : Nat} (a : α) (i : Fin n) : (Vector.replicate n a).get i = a := by
  simp [get_eq]

@[simp] theorem get_ofFn {α : Type} {n : Nat} (f : Fin n → α) (i : Fin n) : (Vector.ofFn f).get i = f i := by
  simp [get_eq]

/-- Tables with the same entries are the same. -/
theorem ext_get {α : Type} {n : Nat} {xs ys : Vector α n} (same : ∀ i, xs.get i = ys.get i) : xs = ys :=
  Vector.ext fun i inside => same ⟨i, inside⟩

end Chip8.Table
