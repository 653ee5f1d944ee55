/-
# CoinSelection.Proofs.Arrangement -- arranging permutes, and sorts what can be compared

The new order of the coins names every place once (`permutation_perm`), so arranging loses no coin
(`arrange_perm`), and since it looks at the coins alone, tags can be renamed before or after
(`map_arrange`).

Where all keys can be compared, arranging is the stable merge sort (`arrange_eq_mergeSort`).
Value-ages always can: the arranged coins ascend (`ascending_arrange`), and coins that ascend
already stay as they are (`arrange_of_ascending`).
-/
import Mathlib
import CoinSelection.Proofs.Sort.Adaptive
import CoinSelection.Arrangement

namespace CoinSelection.Order

open scoped List

set_option autoImplicit false

variable {τ υ : Type}

/-- All places read in order. -/
theorem filterMap_range {α : Type} (items : List α) :
    (List.range items.length).filterMap (items[·]?) = items := by
  have places : (List.range items.length).map (items[·]?) = items.map some :=
    List.ext_getElem (by simp) (by simp)
  calc (List.range items.length).filterMap (items[·]?)
    _ = ((List.range items.length).map (items[·]?)).filterMap id := by
        rw [List.filterMap_map]
        rfl
    _ = items := by
        rw [places, List.filterMap_map]
        exact List.filterMap_some

/-! ## The permutation -/

theorem permutation_perm (o : Order) (coins : List Coin) :
    o.permutation coins ~ List.range coins.length := by
  have places : coins.zipIdx.map (·.2) = List.range coins.length := by
    rw [List.zipIdx_map_snd, List.range_eq_range']
  unfold permutation
  rw [← places]
  refine List.Perm.map _ ?_
  split
  · exact Sort.stable_perm _ _
  · exact Sort.Adaptive.sort_perm _ _

theorem lt_of_mem_permutation {o : Order} {coins : List Coin} {k : Nat}
    (named : k ∈ o.permutation coins) : k < coins.length :=
  List.mem_range.1 ((o.permutation_perm coins).mem_iff.1 named)

/-! ## Tagged coins -/

theorem arrange_perm (o : Order) (coins : List (Coin × τ)) : o.arrange coins ~ coins := by
  have read : (List.range coins.length).filterMap (coins.toArray[·]?) = coins := by
    simpa using filterMap_range coins
  have perm := (o.permutation_perm (coins.map (·.1))).filterMap (coins.toArray[·]?)
  rw [List.length_map, read] at perm
  exact perm

@[simp] theorem length_arrange (o : Order) (coins : List (Coin × τ)) :
    (o.arrange coins).length = coins.length :=
  (o.arrange_perm coins).length_eq

/-- Tags are carried along unseen. -/
theorem map_arrange (o : Order) (f : τ → υ) (coins : List (Coin × τ)) :
    o.arrange (coins.map fun c => (c.1, f c.2)) =
      (o.arrange coins).map fun c => (c.1, f c.2) := by
  simp only [arrange, List.map_map, Function.comp_def, List.map_filterMap]
  apply List.filterMap_congr
  intro k _
  simp

/-- Places as tags: the tags are the permutation. -/
theorem arrange_zipIdx (o : Order) (coins : List Coin) :
    (o.arrange coins.zipIdx).map (·.2) = o.permutation coins := by
  have read : ∀ k ∈ o.permutation coins,
      (coins.zipIdx.toArray[k]?).map (·.2) = some k := by
    intro k named
    simp [lt_of_mem_permutation named]
  simp only [arrange, List.zipIdx_map_fst, List.map_filterMap]
  rw [List.filterMap_congr read]
  simp

/-! ## Sorted order -/

/-- The comparison that the merge sort is given. -/
def notAfter (o : Order) (a b : Coin × τ) : Bool := !o.less b.1 a.1

theorem permutation_eq_mergeSort {o : Order} {coins : List (Coin × τ)}
    (comparable : ∀ c ∈ coins, o.measure.comparable c.1) :
    o.permutation (coins.map (·.1)) =
      (coins.zipIdx.mergeSort fun a b => o.notAfter a.1 b.1).map (·.2) := by
  have all : (coins.map (·.1)).all o.measure.comparable := by
    simpa [List.all_map] using comparable
  have coinsOnly : (coins.map (·.1)).zipIdx =
      coins.zipIdx.map fun a : (Coin × τ) × Nat => (a.1.1, a.2) := by
    rw [List.zipIdx_map]
    rfl
  simp only [permutation, all, if_true, Sort.stable_eq_mergeSort]
  rw [coinsOnly, ← List.map_mergeSort (r := fun a b => o.notAfter a.1 b.1) fun _ _ _ _ => rfl,
    List.map_map]
  rfl

/-- Where all coins can be compared, arranging is the stable sort. -/
theorem arrange_eq_mergeSort {o : Order} {coins : List (Coin × τ)}
    (comparable : ∀ c ∈ coins, o.measure.comparable c.1) :
    o.arrange coins = coins.mergeSort o.notAfter := by
  have read : ∀ a ∈ coins.zipIdx.mergeSort (fun a b => o.notAfter a.1 b.1),
      coins.toArray[a.2]? = some a.1 := by
    intro a placed
    have := List.mem_zipIdx_iff_getElem?.1 ((List.mergeSort_perm _ _).mem_iff.1 placed)
    simpa using this
  rw [arrange, permutation_eq_mergeSort comparable, List.filterMap_map]
  calc (coins.zipIdx.mergeSort fun a b => o.notAfter a.1 b.1).filterMap
        ((coins.toArray[·]?) ∘ (·.2))
    _ = (coins.zipIdx.mergeSort fun a b => o.notAfter a.1 b.1).filterMap (some ∘ (·.1)) :=
        List.filterMap_congr read
    _ = (coins.zipIdx.mergeSort fun a b => o.notAfter a.1 b.1).map (·.1) := by
        rw [List.filterMap_eq_map]
    _ = (coins.zipIdx.map (·.1)).mergeSort o.notAfter :=
        List.map_mergeSort fun _ _ _ _ => rfl
    _ = coins.mergeSort o.notAfter := by rw [List.zipIdx_map_fst]

/-! ## Ascending value-age -/

/-- The coins come in ascending order of value-age. -/
def Ascending (coins : List (Coin × τ)) : Prop :=
  coins.Pairwise fun a b => a.1.valueAge ≤ b.1.valueAge

theorem notAfter_valueAge (a b : Coin × τ) :
    (ascending .valueAge).notAfter a b = decide (a.1.valueAge ≤ b.1.valueAge) := by
  simp [notAfter, less, ascending, Measure.less, ← decide_not]

theorem ascending_arrange (coins : List (Coin × τ)) :
    Ascending ((ascending .valueAge).arrange coins) := by
  rw [arrange_eq_mergeSort (o := ascending .valueAge) fun _ _ => rfl]
  have sorted : (coins.mergeSort (ascending .valueAge).notAfter).Pairwise
      fun a b => (ascending .valueAge).notAfter a b = true :=
    List.pairwise_mergeSort
      (fun a b c ab bc => by
        rw [notAfter_valueAge, decide_eq_true_iff] at ab bc ⊢
        exact ab.trans bc)
      (fun a b => by
        simpa [notAfter_valueAge] using le_total a.1.valueAge b.1.valueAge) coins
  exact sorted.imp fun le => by simpa [notAfter_valueAge] using le

/-- Coins that ascend already are in order. -/
theorem arrange_of_ascending {coins : List (Coin × τ)} (sorted : Ascending coins) :
    (ascending .valueAge).arrange coins = coins := by
  rw [arrange_eq_mergeSort (o := ascending .valueAge) fun _ _ => rfl]
  apply List.mergeSort_of_pairwise
  apply sorted.imp
  intro a b le
  simpa [notAfter_valueAge] using le

end CoinSelection.Order
