/-
# CoinSelection.Proofs.Sort.Swaps -- the swaps reach the wanted order

The loop goes from place to place: the element in front is the wanted one, or the wanted one stands
further on and changes places with it (`Settling`, `settling_swapsFrom`).  What is proved of the
swaps is proved by induction on that.  Carried out on a list, they leave at each place what `order`
names there (`applySwaps_swapsTo`): the places on the left are settled for good
(`getElem?_applySwaps_of_le`).

Each swap brings an element forward to its place, so both places are inside the list
(`swapsTo_inside`), and no place is settled twice (`swapsTo_increasing`).
-/
import Mathlib
import CoinSelection.Sort.Swaps

namespace CoinSelection.Sort

open scoped List

set_option autoImplicit false

variable {α β : Type}

theorem map_swapIfInBounds (f : α → β) (items : Array α) (i j : Nat) :
    (items.swapIfInBounds i j).map f = (items.map f).swapIfInBounds i j := by
  apply Array.ext
  · simp
  · intro k _ _
    simp only [Array.getElem_map, Array.getElem_swapIfInBounds, Array.size_map]
    split
    · rfl
    · split <;> rfl

/-- Swapping what is read off a list is reading it off the swapped list. -/
theorem map_applySwaps (f : α → β) (items : Array α) (swaps : List (Nat × Nat)) :
    (applySwaps items swaps).map f = applySwaps (items.map f) swaps := by
  induction swaps generalizing items with
  | nil => rfl
  | cons s rest ih =>
      simp only [applySwaps, List.foldl_cons] at ih ⊢
      rw [ih, map_swapIfInBounds]

theorem swapsFrom_self [BEq α] [LawfulBEq α] (k : Nat) (held : List α) :
    swapsFrom k held held = [] := by
  induction held generalizing k with
  | nil => rfl
  | cons h held ih => rw [swapsFrom, if_pos (beq_self_eq_true h), ih]

/-- A list in order already needs no swap. -/
theorem swapsTo_range (n : Nat) : swapsTo (List.range n) = [] := by
  rw [swapsTo, List.length_range, swapsFrom_self]

/-- The element that belongs at the front, swapped with the element in front. -/
theorem swapIfInBounds_middle (done held : List α) (h w : α) (i : Nat) (there : held[i]? = some w) :
    (done ++ h :: held).toArray.swapIfInBounds done.length (done.length + 1 + i) =
      (done ++ w :: held.set i h).toArray := by
  have inside : i < held.length := (List.getElem?_eq_some_iff.1 there).1
  have value : held[i] = w := (List.getElem?_eq_some_iff.1 there).2
  apply Array.ext
  · simp
  · intro k _ bound
    simp only [Array.getElem_swapIfInBounds, List.getElem_toArray, List.size_toArray]
    grind

theorem set_perm [BEq α] [LawfulBEq α] {held wanted : List α} {h w : α} (missing : w ∈ held)
    (perm : h :: held ~ w :: wanted) : held.set (held.idxOf w) h ~ wanted := by
  have inside : held.idxOf w < held.length := List.idxOf_lt_length_of_mem missing
  have moved : held.set (held.idxOf w) h ~ h :: held.erase w := by
    rw [List.erase_eq_eraseIdx_of_idxOf rfl]
    exact List.set_perm_cons_eraseIdx inside h
  refine List.Perm.cons_inv (a := w) ?_
  calc w :: held.set (held.idxOf w) h
    _ ~ w :: h :: held.erase w := moved.cons w
    _ ~ h :: w :: held.erase w := List.Perm.swap _ _ _
    _ ~ h :: held := (List.perm_cons_erase missing).symm.cons h
    _ ~ w :: wanted := perm

/-- An element that belongs at the front and is not there is further on. -/
theorem mem_of_unsettled {held wanted : List α} {h w : α} (perm : h :: held ~ w :: wanted)
    (unsettled : h ≠ w) : w ∈ held := by
  have listed := perm.mem_iff.2 List.mem_cons_self
  exact (List.mem_cons.1 listed).resolve_left unsettled.symm

/-! ## The loop -/

/-- The swaps from the place `k` on that turn one list into another. -/
inductive Settling : Nat → List α → List α → List (Nat × Nat) → Prop where
  | done (k : Nat) : Settling k [] [] []
  | stays {k : Nat} {held wanted : List α} {swaps : List (Nat × Nat)} (w : α)
      (rest : Settling (k + 1) held wanted swaps) : Settling k (w :: held) (w :: wanted) swaps
  | moves {k : Nat} {held wanted : List α} {swaps : List (Nat × Nat)} {h w : α} {i : Nat}
      (there : held[i]? = some w) (rest : Settling (k + 1) (held.set i h) wanted swaps) :
      Settling k (h :: held) (w :: wanted) ((k, k + 1 + i) :: swaps)

theorem settling_swapsFrom [BEq α] [LawfulBEq α] {k : Nat} {held wanted : List α}
    (perm : held ~ wanted) : Settling k held wanted (swapsFrom k held wanted) := by
  induction wanted generalizing k held with
  | nil =>
      rw [List.Perm.eq_nil perm]
      exact .done k
  | cons w wanted ih =>
      match held, perm with
      | [], perm => exact absurd perm.symm.eq_nil (List.cons_ne_nil _ _)
      | h :: held, perm =>
          rw [swapsFrom]
          by_cases settled : h = w
          · subst settled
            rw [if_pos (beq_self_eq_true h)]
            exact .stays h (ih (List.Perm.cons_inv perm))
          · have missing := mem_of_unsettled perm settled
            have near := List.idxOf_lt_length_of_mem missing
            rw [if_neg (by simpa using settled)]
            refine .moves ?_ (ih (set_perm missing perm))
            rw [List.getElem?_eq_getElem near, List.getElem_idxOf near]

theorem Settling.applySwaps {k : Nat} {held wanted : List α} {swaps : List (Nat × Nat)}
    (settling : Settling k held wanted swaps) (done : List α) (place : done.length = k) :
    Sort.applySwaps (done ++ held).toArray swaps = (done ++ wanted).toArray := by
  induction settling generalizing done with
  | done k => rfl
  | stays w rest ih => simpa using ih (done ++ [w]) (by simp [place])
  | @moves k held wanted swaps h w i there rest ih =>
      subst place
      have settled := ih (done ++ [w]) (by simp)
      simp only [Sort.applySwaps, List.foldl_cons]
      rw [swapIfInBounds_middle done held h w i there]
      simpa [Sort.applySwaps] using settled

/-- After the swaps, each place holds what the order names there. -/
theorem applySwaps_swapsTo (items : Array α) (order : List Nat)
    (perm : order ~ List.range items.size) :
    (applySwaps items (swapsTo order)).toList = order.filterMap (items[·]?) := by
  have length : order.length = items.size := by simpa using perm.length_eq
  have places : applySwaps (List.range items.size).toArray (swapsTo order) = order.toArray := by
    rw [swapsTo, length]
    exact (settling_swapsFrom perm.symm).applySwaps [] rfl
  have read : (List.range items.size).toArray.map (items[·]?) = items.map some := by
    apply Array.ext <;> simp
  have moved : (applySwaps items (swapsTo order)).map some = order.toArray.map (items[·]?) := by
    rw [map_applySwaps, ← read, ← map_applySwaps, places]
  have held := congrArg Array.toList moved
  simp only [Array.toList_map] at held
  have seen : (order.map (items[·]?)).filterMap id = order.filterMap (items[·]?) := by
    simp [List.filterMap_map]
  rw [← seen, ← held, List.filterMap_map]
  simp

/-! ## Where the swaps are -/

/-- Each swap brings an element to the front from further back. -/
theorem Settling.bounds {k : Nat} {held wanted : List α} {swaps : List (Nat × Nat)}
    (settling : Settling k held wanted swaps) :
    ∀ w ∈ swaps, k ≤ w.1 ∧ w.1 < w.2 ∧ w.2 < k + held.length := by
  induction settling with
  | done k => simp
  | stays w rest ih =>
      intro s listed
      have later := ih s listed
      rw [List.length_cons]
      omega
  | moves there rest ih =>
      have near := (List.getElem?_eq_some_iff.1 there).1
      intro s listed
      rw [List.length_cons]
      rcases List.mem_cons.1 listed with rfl | listed
      · dsimp only
        omega
      · have later := ih s listed
        rw [List.length_set] at later
        omega

/-- Each swap is made at a place further on than the one before. -/
theorem Settling.increasing {k : Nat} {held wanted : List α} {swaps : List (Nat × Nat)}
    (settling : Settling k held wanted swaps) : swaps.Pairwise fun v w => v.1 < w.1 := by
  induction settling with
  | done k => exact List.Pairwise.nil
  | stays w rest ih => exact ih
  | moves there rest ih =>
      refine List.pairwise_cons.2 ⟨?_, ih⟩
      intro s later
      exact (rest.bounds s later).1

theorem swapsTo_inside {order : List Nat} {n : Nat} (perm : order ~ List.range n) :
    ∀ w ∈ swapsTo order, w.1 < w.2 ∧ w.2 < n := by
  have length : order.length = n := by simpa using perm.length_eq
  intro w listed
  rw [swapsTo, length] at listed
  have := (settling_swapsFrom perm.symm).bounds w listed
  rw [List.length_range] at this
  omega

/-! ## One place after the other -/

theorem swapsTo_increasing {order : List Nat} {n : Nat} (perm : order ~ List.range n) :
    (swapsTo order).Pairwise fun v w => v.1 < w.1 := by
  have length : order.length = n := by simpa using perm.length_eq
  rw [swapsTo, length]
  exact (settling_swapsFrom perm.symm).increasing

theorem applySwaps_append (items : Array α) (first second : List (Nat × Nat)) :
    applySwaps items (first ++ second) = applySwaps (applySwaps items first) second :=
  List.foldl_append

/-- Swaps leave the places in front of them alone. -/
theorem getElem?_applySwaps_of_lt (items : Array α) {swaps : List (Nat × Nat)} {p : Nat}
    (later : ∀ w ∈ swaps, p < w.1 ∧ p < w.2) : (applySwaps items swaps)[p]? = items[p]? := by
  induction swaps generalizing items with
  | nil => rfl
  | cons w rest ih =>
      obtain ⟨⟨first, second⟩, others⟩ := List.forall_mem_cons.1 later
      have kept : (items.swapIfInBounds w.1 w.2)[p]? = items[p]? := by
        grind
      rw [← kept]
      exact ih _ others

/-- After a swap, the places up to the one that it settles are as they are in the end. -/
theorem getElem?_applySwaps_of_le {order : List Nat} {n : Nat} (perm : order ~ List.range n)
    (items : Array α) {done rest : List (Nat × Nat)} {w : Nat × Nat}
    (split : swapsTo order = done ++ w :: rest) {p : Nat} (settled : p ≤ w.1) :
    (applySwaps items (done ++ [w]))[p]? = (applySwaps items (swapsTo order))[p]? := by
  have increasing := swapsTo_increasing perm
  rw [split] at increasing
  have later : ∀ s ∈ rest, p < s.1 ∧ p < s.2 := by
    intro s listed
    have below := (swapsTo_inside perm s (by simp [split, listed])).1
    have after : w.1 < s.1 := by
      have tail := (List.pairwise_append.1 increasing).2.1
      exact (List.pairwise_cons.1 tail).1 s listed
    omega
  have kept := getElem?_applySwaps_of_lt (applySwaps items (done ++ [w])) later
  rw [← applySwaps_append, ← List.append_cons, ← split] at kept
  exact kept.symm

end CoinSelection.Sort
