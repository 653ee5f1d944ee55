/-
# CoinSelection.Proofs.Sort.Cycles -- as many swaps as there are places less cycles

A permutation moves the elements of a list around in cycles.  A swap that settles a place takes the
element of that place out of its cycle and leaves the rest of it (`cycles_swap_mul`), so the swaps
end when every element is a cycle by itself: together with the cycles at the start they are as many
as there are elements (`Settling.length`).

The swaps for an order of places are `Frugal`: they name the places from the left to the right, and
there are as many of them as there are places less cycles.
-/
import Mathlib
import CoinSelection.Proofs.Sort.Swaps

namespace CoinSelection.Sort

open Equiv (Perm swap)
open scoped List

set_option autoImplicit false

variable {α : Type} [DecidableEq α] {τ : Perm α} {x : α}

/-- Two elements exchanged in a list, of which one comes from outside. -/
theorem set_map {wanted : List α} {w : α} (distinct : wanted.Nodup) (outside : w ∉ wanted) {i : Nat}
    (there : (wanted.map τ)[i]? = some w) :
    (wanted.map τ).set i (τ w) = wanted.map (swap w (τ w) * τ) := by
  have distinct' : (wanted.map τ).Nodup := distinct.map τ.injective
  obtain ⟨near, value⟩ := List.getElem?_eq_some_iff.1 there
  apply List.ext_getElem (by simp)
  intro p inside inside'
  have bound : p < wanted.length := by simpa using inside'
  rw [List.getElem_map, Equiv.Perm.mul_apply, ← List.getElem_map τ (h := by simpa using bound),
    List.getElem_set]
  split
  · rename_i here
    subst here
    rw [value, Equiv.swap_apply_left]
  · rename_i elsewhere
    rw [Equiv.swap_apply_of_ne_of_ne]
    · rw [← value]
      exact fun same => elsewhere ((distinct'.getElem_inj_iff).1 same).symm
    · rw [List.getElem_map]
      exact fun same => outside (τ.injective same ▸ List.getElem_mem bound)

/-! ## Cycles -/

variable [Fintype α]

/-- The number of cycles, those of one element included. -/
def cycles (τ : Perm α) : Nat := τ.partition.parts.card

theorem cycles_eq (τ : Perm α) :
    cycles τ = τ.cycleType.card + (Fintype.card α - τ.support.card) := by
  rw [cycles, Equiv.Perm.parts_partition, Multiset.card_add, Multiset.card_replicate]

theorem cycles_one : cycles (1 : Perm α) = Fintype.card α := by
  rw [cycles_eq, Equiv.Perm.cycleType_one, Equiv.Perm.support_one]
  simp

theorem cycles_pos [Nonempty α] (τ : Perm α) : 0 < cycles τ := by
  refine Multiset.card_pos.2 fun none => ?_
  have total := τ.partition.parts_sum
  rw [none, Multiset.sum_zero] at total
  exact Fintype.card_ne_zero total.symm

/-- A cycle beside others: its elements would be cycles by themselves without it. -/
theorem cycles_mul {c rest : Perm α} (isCycle : c.IsCycle) (apart : c.Disjoint rest) :
    cycles (c * rest) + c.support.card = cycles rest + 1 := by
  have fits : (c * rest).support.card ≤ Fintype.card α := Finset.card_le_univ _
  rw [apart.card_support_mul] at fits
  rw [cycles_eq, cycles_eq, apart.cycleType_mul, apart.card_support_mul, Multiset.card_add,
    Equiv.Perm.card_cycleType_eq_one.2 isCycle]
  omega

/-- An element that is swapped with the one that it goes to is a cycle by itself; the others of its
cycle stay in one, if there are any. -/
theorem cycles_swap_mul (moves : τ x ≠ x) : cycles (swap x (τ x) * τ) = cycles τ + 1 := by
  set c := τ.cycleOf x with isCycleOf
  set rest := τ * c⁻¹ with isRest
  have isCycle : c.IsCycle := τ.isCycle_cycleOf moves
  have listed : c ∈ τ.cycleFactorsFinset :=
    Equiv.Perm.cycleOf_mem_cycleFactorsFinset_iff.2 (Equiv.Perm.mem_support.2 moves)
  have apart : c.Disjoint rest :=
    (Equiv.Perm.disjoint_mul_inv_of_mem_cycleFactorsFinset listed).symm
  have split : τ = c * rest := by
    rw [apart.commute.eq, isRest, inv_mul_cancel_right]
  have next : c x = τ x := τ.cycleOf_apply_self x
  have whole := cycles_mul isCycle apart
  rw [← split] at whole
  have swapped : swap x (τ x) * τ = swap x (c x) * c * rest := by
    rw [next, mul_assoc, ← split]
  have movesC : c x ≠ x := by rwa [next]
  rw [swapped]
  by_cases back : c (c x) = x
  · have two := isCycle.eq_swap_of_apply_apply_eq_self movesC back
    have pair : c.support.card = 2 := by
      rw [two, Equiv.Perm.card_support_swap movesC.symm]
    have undone : swap x (c x) * c = 1 := by
      nth_rewrite 2 [two]
      exact Equiv.swap_mul_self x (c x)
    rw [undone, one_mul]
    omega
  · have shorter : (swap x (c x) * c).support = c.support \ {x} :=
      c.support_swap_mul_eq x back
    have apart' : (swap x (c x) * c).Disjoint rest :=
      apart.mono (shorter.le.trans Finset.sdiff_subset) le_rfl
    have shortened := cycles_mul (isCycle.swap_mul movesC back) apart'
    rw [shorter, Finset.card_sdiff_of_subset
      (Finset.singleton_subset_iff.2 (Equiv.Perm.mem_support.2 movesC)),
      Finset.card_singleton] at shortened
    have long := isCycle.two_le_card_support
    omega

/-! ## The number of swaps -/

/-- Where a permutation leaves everything alone but what is still wanted, the swaps and its cycles
together are as many as there are elements. -/
theorem Settling.length {k : Nat} {held wanted : List α} {swaps : List (Nat × Nat)}
    (settling : Settling k held wanted swaps) (distinct : wanted.Nodup)
    (isHeld : held = wanted.map τ) (settled : ∀ x, x ∉ wanted → τ x = x) :
    swaps.length + cycles τ = Fintype.card α := by
  induction settling generalizing τ with
  | done k =>
      have still : τ = 1 := Equiv.ext fun x => settled x List.not_mem_nil
      rw [still, cycles_one, List.length_nil, Nat.zero_add]
  | @stays k held wanted swaps w rest ih =>
      obtain ⟨outside, distinct⟩ := List.nodup_cons.1 distinct
      obtain ⟨here, isHeld⟩ := List.cons.inj isHeld
      refine ih distinct isHeld ?_
      intro x other
      by_cases same : x = w
      · rw [same, ← here]
      · exact settled x (by simp [same, other])
  -- the element in front is taken out of its cycle
  | @moves k held wanted swaps h w i there rest ih =>
      obtain ⟨outside, distinct⟩ := List.nodup_cons.1 distinct
      obtain ⟨rfl, rfl⟩ := List.cons.inj isHeld
      have here : τ w ≠ w := by
        intro same
        obtain ⟨x, listed, goes⟩ := List.mem_map.1 (List.mem_of_getElem? there)
        exact outside (τ.injective (goes.trans same.symm) ▸ listed)
      have settled : ∀ x, x ∉ wanted → (swap w (τ w) * τ) x = x := by
        intro x other
        by_cases same : x = w
        · rw [same, Equiv.Perm.mul_apply, Equiv.swap_apply_right]
        · have fixed := settled x (by simp [same, other])
          have apart : x ≠ τ w := by
            intro reached
            exact same (τ.injective (fixed.trans reached))
          rw [Equiv.Perm.mul_apply, fixed, Equiv.swap_apply_of_ne_of_ne same apart]
      have later := ih distinct (set_map distinct outside there) settled
      rw [cycles_swap_mul here] at later
      rw [List.length_cons]
      omega

/-! ## Places -/

/-- Elements may be renamed: the swaps are about places. -/
theorem swapsFrom_map {β γ : Type} [BEq β] [LawfulBEq β] [BEq γ] [LawfulBEq γ] {f : β → γ}
    (injective : Function.Injective f) (k : Nat) (held wanted : List β) :
    swapsFrom k (held.map f) (wanted.map f) = swapsFrom k held wanted := by
  induction wanted generalizing k held with
  | nil => cases held <;> rfl
  | cons w wanted ih =>
      cases held with
      | nil => rfl
      | cons h held =>
          have place : (held.map f).idxOf (f w) = held.idxOf w := by
            simp [List.idxOf, List.findIdx_map, Function.comp_def, injective.beq_eq]
          simp only [List.map_cons, swapsFrom, injective.beq_eq, place, ← List.map_set, ih]

/-- The permutation that sends each place to where it stands in a list of all places. -/
theorem exists_map_eq_finRange {n : Nat} {wanted : List (Fin n)} (perm : wanted ~ List.finRange n) :
    ∃ σ : Perm (Fin n), wanted.map σ = List.finRange n := by
  have length : wanted.length = n := by simpa using perm.length_eq
  have distinct : wanted.Nodup := perm.nodup_iff.2 (List.nodup_finRange n)
  have listed : ∀ i, i ∈ wanted := fun i => perm.mem_iff.2 (List.mem_finRange i)
  let place : Fin n → Fin n := fun i =>
    ⟨wanted.idxOf i, (List.idxOf_lt_length_of_mem (listed i)).trans_eq length⟩
  have injective : Function.Injective place := by
    intro i j same
    exact (List.idxOf_inj (listed i)).1 (congrArg Fin.val same)
  refine ⟨Equiv.ofBijective place (Finite.injective_iff_bijective.1 injective), ?_⟩
  apply List.ext_getElem (by simpa using length)
  intro p inside _
  have inside : p < wanted.length := by simpa using inside
  simp [place, distinct.idxOf_getElem p inside]

/-- Swaps that settle one place after the other, as few as the permutation of the places allows. -/
structure Frugal {n : Nat} (σ : Perm (Fin n)) (swaps : List (Nat × Nat)) : Prop where
  inside : ∀ w ∈ swaps, w.1 < w.2 ∧ w.2 < n
  increasing : swaps.Pairwise fun v w => v.1 < w.1
  count : swaps.length + cycles σ = n

theorem Frugal.length_le {n : Nat} {σ : Perm (Fin n)} {swaps : List (Nat × Nat)}
    (frugal : Frugal σ swaps) : swaps.length ≤ n - 1 := by
  have count := frugal.count
  cases n with
  | zero => omega
  | succ n =>
      have several := cycles_pos σ
      omega

/-- The swaps for an order waste nothing on the permutation that sends each place to where the order
names it. -/
theorem exists_frugal {order : List Nat} {n : Nat} (perm : order ~ List.range n) :
    ∃ σ : Perm (Fin n), (∀ i : Fin n, order[(σ i : Nat)]? = some (i : Nat)) ∧
      Frugal σ (swapsTo order) := by
  have length : order.length = n := by simpa using perm.length_eq
  have inside : ∀ k ∈ order, k < n := fun k named => List.mem_range.1 (perm.mem_iff.1 named)
  obtain ⟨wanted, values⟩ : ∃ wanted : List (Fin n), wanted.map Fin.val = order :=
    ⟨order.pmap Fin.mk inside, by simp [List.map_pmap]⟩
  have whole : wanted ~ List.finRange n := by
    apply (List.map_perm_map_iff Fin.val_injective).1
    rwa [values, List.map_coe_finRange_eq_range]
  obtain ⟨σ, moved⟩ := exists_map_eq_finRange whole
  refine ⟨σ, ?_, swapsTo_inside perm, swapsTo_increasing perm, ?_⟩
  · intro i
    have read : (wanted.map σ)[(σ i : Nat)]? = some (σ i) := by
      rw [moved]
      simp
    rw [List.getElem?_map, Option.map_eq_some_iff] at read
    obtain ⟨j, held, same⟩ := read
    rw [← values, List.getElem?_map, held, σ.injective same]
    rfl
  · have swaps : swapsTo order = swapsFrom 0 (List.finRange n) wanted := by
      rw [swapsTo, length, ← values, ← List.map_coe_finRange_eq_range,
        swapsFrom_map Fin.val_injective]
    have distinct : wanted.Nodup := whole.nodup_iff.2 (List.nodup_finRange n)
    have all : ∀ i, i ∉ wanted → σ i = i := by
      intro i other
      exact absurd (whole.mem_iff.2 (List.mem_finRange i)) other
    rw [swaps, (settling_swapsFrom whole.symm).length distinct moved.symm all, Fintype.card_fin]

end CoinSelection.Sort
