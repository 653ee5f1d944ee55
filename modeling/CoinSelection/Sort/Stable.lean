/-
# CoinSelection.Sort.Stable -- the stable sort

A merge sort by halves: elements of which neither is less keep the order in which they came.  The
halving is structural in a bound on the length, so a sort of given elements computes in proofs as
well; `stable_eq_mergeSort` identifies it with `List.mergeSort`, from which the laws are taken.
-/

namespace CoinSelection.Sort

set_option autoImplicit false

variable {α : Type}

/-- Merges two lists; of two elements the one on the left goes first unless the other is less. -/
def merge (less : α → α → Bool) (xs ys : List α) : List α :=
  match xs, ys with
  | [], ys => ys
  | xs, [] => xs
  | x :: xs, y :: ys =>
      if less y x then y :: merge less (x :: xs) ys else x :: merge less xs (y :: ys)
termination_by xs.length + ys.length

/-- Sorts a list whose length is at most the bound: its halves are sorted and merged. -/
def stableUpTo (less : α → α → Bool) : Nat → List α → List α
  | bound + 1, x :: y :: rest =>
      let all := x :: y :: rest
      let half := (all.length + 1) / 2
      merge less (stableUpTo less bound (all.take half)) (stableUpTo less bound (all.drop half))
  | _, xs => xs

def stable (less : α → α → Bool) (xs : List α) : List α := stableUpTo less xs.length xs

/-! ## Laws -/

theorem merge_eq (less : α → α → Bool) (xs ys : List α) :
    merge less xs ys = xs.merge ys fun a b => !less b a := by
  fun_induction merge less xs ys with
  | case1 ys => simp
  | case2 xs => simp
  | case3 x xs y ys h ih => rw [ih, List.cons_merge_cons]; simp [h]
  | case4 x xs y ys h ih => rw [ih, List.cons_merge_cons]; simp [h]

theorem stableUpTo_eq (less : α → α → Bool) (bound : Nat) (xs : List α) (h : xs.length ≤ bound) :
    stableUpTo less bound xs = xs.mergeSort fun a b => !less b a := by
  fun_induction stableUpTo less bound xs with
  | case1 bound x y rest all half ih₁ ih₂ =>
    have shorter : all.length ≤ bound + 1 := h
    have long : 2 ≤ all.length := by simp [all]
    rw [ih₁ (by rw [List.length_take]; omega), ih₂ (by rw [List.length_drop]; omega), merge_eq,
      List.mergeSort]
    simp [all, half]
  | case2 bound xs short =>
    match xs, short with
    | [], _ | [_], _ => simp
    | x :: y :: rest, short =>
      match bound with
      | 0 => simp at h
      | bound + 1 => exact absurd rfl (short bound x y rest rfl)

/-- The sort is the one of the standard library. -/
theorem stable_eq_mergeSort (less : α → α → Bool) (xs : List α) :
    stable less xs = xs.mergeSort fun a b => !less b a :=
  stableUpTo_eq less xs.length xs (Nat.le_refl _)

theorem stable_perm (less : α → α → Bool) (xs : List α) : (stable less xs).Perm xs := by
  rw [stable_eq_mergeSort]
  exact List.mergeSort_perm xs _

end CoinSelection.Sort
