import Mathlib.Data.List.Basic

/-! Slices that stop the program when they are taken outside of their bounds. -/
namespace ZeroMasque.Foundation
variable {α : Type}

/-- An index past the end of a slice. -/
structure OutOfRange where
  index : Nat
  length : Nat

/-- `&xs[i..]`. -/
def sliceFrom (xs : List α) (i : Nat) : Except OutOfRange (List α) :=
  if i ≤ xs.length then .ok (xs.drop i) else .error ⟨i, xs.length⟩

/-- `&xs[i..j]`. -/
def slice (xs : List α) (i j : Nat) : Except OutOfRange (List α) :=
  if i ≤ j ∧ j ≤ xs.length then .ok ((xs.take j).drop i) else .error ⟨max i j, xs.length⟩

theorem sliceFrom_of_le {xs : List α} {i : Nat} (h : i ≤ xs.length) : sliceFrom xs i = .ok (xs.drop i) :=
  if_pos h

theorem slice_of_le {xs : List α} {i j : Nat} (hij : i ≤ j) (hj : j ≤ xs.length) :
    slice xs i j = .ok ((xs.take j).drop i) := if_pos ⟨hij, hj⟩

end ZeroMasque.Foundation
