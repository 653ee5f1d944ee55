/-
# CoinSelection.Proofs.StableOrder -- the one order that a stable sort can end with

`Order.StablyPlaced o coins placed` says, without a sort, that `placed` are the coins in the stable
order, each with the place that it had: lesser keys come first, and of equal keys the earlier place.
No other list is (`StablyPlaced.unique`).

Coins whose keys can be compared stand in one line (`Order.less_iff_rank_lt`), so arranging them
gives that list (`stablyPlaced_arrange`), and arranging them again changes nothing
(`arrange_settled`).
-/
import Mathlib
import CoinSelection.Proofs.Arrangement
import CoinSelection.Proofs.Binary64.Ordered

namespace CoinSelection.Order

open Binary64 (Rank)
open scoped List

set_option autoImplicit false

variable {τ : Type} {o : Order} {coins : List Coin}

/-! ## Keys in one line -/

/-- The place of a coin's key in the line of all keys, which a descending order goes backwards. -/
def rank (o : Order) (c : Coin) : Rank :=
  let key := match o.measure with
    | .amount => Binary64.rank c.amount
    | .valueAge => toLex (c.valueAge, toLex (0, 0))
  if o.descending then -key else key

theorem less_iff_rank_lt {a b : Coin} (comparableA : o.measure.comparable a)
    (comparableB : o.measure.comparable b) : o.less a b ↔ o.rank a < o.rank b := by
  obtain ⟨measure, descending⟩ := o
  cases measure with
  | amount =>
      simp only [Measure.comparable, Bool.not_eq_true'] at comparableA comparableB
      cases descending with
      | false =>
          simpa [less, rank, Measure.less] using Binary64.lt_iff_rank_lt comparableA comparableB
      | true =>
          simpa [less, rank, Measure.less] using Binary64.lt_iff_rank_lt comparableB comparableA
  | valueAge =>
      cases descending <;> simp [less, rank, Measure.less, Prod.Lex.toLex_lt_toLex]

theorem not_less_iff_rank_le {a b : Coin} (comparableA : o.measure.comparable a)
    (comparableB : o.measure.comparable b) : o.less b a = false ↔ o.rank a ≤ o.rank b := by
  rw [← not_lt, ← less_iff_rank_lt comparableB comparableA, Bool.not_eq_true]

/-- Where all coins can be compared, arranging is the merge sort by rank. -/
theorem arrange_eq_mergeSort_rank {coins : List (Coin × τ)}
    (comparable : ∀ c ∈ coins, o.measure.comparable c.1) :
    o.arrange coins = coins.mergeSort fun a b => decide (o.rank a.1 ≤ o.rank b.1) := by
  have same : ∀ a ∈ coins, ∀ b ∈ coins,
      o.notAfter a b = decide (o.rank a.1 ≤ o.rank b.1) := by
    intro a insideA b insideB
    rw [Bool.eq_iff_iff, decide_eq_true_iff, notAfter, Bool.not_eq_true',
      not_less_iff_rank_le (comparable a insideA) (comparable b insideB)]
  have sorts : (coins.mergeSort o.notAfter).map id =
      (coins.map id).mergeSort fun a b => decide (o.rank a.1 ≤ o.rank b.1) :=
    List.map_mergeSort same
  rw [arrange_eq_mergeSort comparable]
  rwa [List.map_id, List.map_id] at sorts

/-! ## The stable order -/

/-- Of two coins with the places that they had, the first is the one that comes first. -/
def Before (o : Order) (a b : Coin × Nat) : Prop :=
  o.less a.1 b.1 ∨ (o.less b.1 a.1 = false ∧ a.2 < b.2)

/-- These are the coins in the stable order, each with the place that it had. -/
structure StablyPlaced (o : Order) (coins : List Coin) (placed : List (Coin × Nat)) : Prop where
  perm : placed ~ coins.zipIdx
  inOrder : placed.Pairwise o.Before

theorem comparable_zipIdx (comparable : ∀ c ∈ coins, o.measure.comparable c) :
    ∀ c ∈ coins.zipIdx, o.measure.comparable c.1 := by
  intro c listed
  exact comparable c.1 (List.fst_mem_of_mem_zipIdx listed)

theorem increasing_zipIdx (coins : List Coin) : coins.zipIdx.Pairwise fun a b => a.2 < b.2 := by
  have places : (coins.zipIdx.map (·.2)).Pairwise (· < ·) := by
    rw [List.zipIdx_map_snd]
    exact List.pairwise_lt_range'
  exact List.pairwise_map.1 places

/-- Coins of one key keep their order. -/
theorem filter_arrange (comparable : ∀ c ∈ coins, o.measure.comparable c) (key : Rank) :
    (o.arrange coins.zipIdx).filter (fun c => o.rank c.1 = key) =
      coins.zipIdx.filter (fun c => o.rank c.1 = key) := by
  have perm := o.arrange_perm coins.zipIdx
  rw [arrange_eq_mergeSort_rank (comparable_zipIdx comparable)] at perm ⊢
  set ties := coins.zipIdx.filter fun c => o.rank c.1 = key
  have level : ties.Pairwise fun a b => decide (o.rank a.1 ≤ o.rank b.1) = true := by
    apply List.pairwise_of_forall_mem_list
    intro a tieA b tieB
    have isA := of_decide_eq_true (List.mem_filter.1 tieA).2
    have isB := of_decide_eq_true (List.mem_filter.1 tieB).2
    simp [isA, isB]
  have kept := List.sublist_mergeSort (by simpa using fun a b c => le_trans)
    (by simpa using fun a b => le_total _ _) level List.filter_sublist
  have filtered := kept.filter fun c => o.rank c.1 = key
  rw [List.filter_eq_self.2 fun c tie => (List.mem_filter.1 tie).2] at filtered
  exact (filtered.eq_of_length (perm.filter _).length_eq.symm).symm

/-- Where all coins can be compared, arranging puts them in the stable order. -/
theorem stablyPlaced_arrange (comparable : ∀ c ∈ coins, o.measure.comparable c) :
    o.StablyPlaced coins (o.arrange coins.zipIdx) := by
  have perm := o.arrange_perm coins.zipIdx
  have comparable_placed : ∀ c ∈ o.arrange coins.zipIdx, o.measure.comparable c.1 := by
    intro c listed
    exact comparable_zipIdx comparable c (perm.mem_iff.1 listed)
  have sorted : (o.arrange coins.zipIdx).Pairwise fun a b => o.rank a.1 ≤ o.rank b.1 := by
    rw [arrange_eq_mergeSort_rank (comparable_zipIdx comparable)]
    refine (List.pairwise_mergeSort ?_ ?_ _).imp fun le => of_decide_eq_true le
    · simpa using fun a b c => le_trans
    · simpa using fun a b => le_total _ _
  refine ⟨perm, List.pairwise_iff_forall_sublist.2 ?_⟩
  intro a b pair
  have le := List.pairwise_iff_forall_sublist.1 sorted pair
  have comparableA := comparable_placed a (pair.subset (by simp))
  have comparableB := comparable_placed b (pair.subset (by simp))
  rcases le.lt_or_eq with lesser | tie
  · exact .inl ((less_iff_rank_lt comparableA comparableB).2 lesser)
  -- coins of one key stand as they stood in the list
  · have kept := pair.filter fun c => o.rank c.1 = o.rank a.1
    rw [filter_arrange comparable] at kept
    have kept := kept.trans List.filter_sublist
    simp only [tie, decide_true, List.filter_cons_of_pos, List.filter_nil] at kept
    refine .inr ⟨(not_less_iff_rank_le comparableA comparableB).2 le, ?_⟩
    exact List.pairwise_iff_forall_sublist.1 (increasing_zipIdx coins) kept

/-- Coins in order are in the stable order as they stand. -/
theorem stablyPlaced_zipIdx (sorted : coins.Pairwise fun a b => o.less b a = false) :
    o.StablyPlaced coins coins.zipIdx := by
  refine ⟨.refl _, ?_⟩
  have inOrder : coins.zipIdx.Pairwise fun a b => o.less b.1 a.1 = false := by
    refine (List.pairwise_map (R := fun a b : Coin => o.less b a = false)).1 ?_
    rwa [List.zipIdx_map_fst]
  exact (inOrder.and (increasing_zipIdx coins)).imp .inr

theorem not_less_of_less {a b : Coin} (comparableA : o.measure.comparable a)
    (comparableB : o.measure.comparable b) (less : o.less a b) : o.less b a = false := by
  rw [not_less_iff_rank_le comparableA comparableB]
  exact ((less_iff_rank_lt comparableA comparableB).1 less).le

namespace StablyPlaced

variable {placed placed' : List (Coin × Nat)}

/-- There is one stable order. -/
theorem unique (comparable : ∀ c ∈ coins, o.measure.comparable c)
    (first : o.StablyPlaced coins placed) (second : o.StablyPlaced coins placed') :
    placed = placed' := by
  refine List.Perm.eq_of_pairwise ?_ first.inOrder second.inOrder (first.perm.trans second.perm.symm)
  intro a b insideA insideB ab ba
  have insideA := first.perm.mem_iff.1 insideA
  have insideB := second.perm.mem_iff.1 insideB
  have comparableA := comparable_zipIdx comparable a insideA
  have comparableB := comparable_zipIdx comparable b insideB
  -- neither comes before the other, so they have one place
  rcases ab with lesser | ⟨notAfter, earlier⟩
  · rcases ba with greater | ⟨notLess, -⟩
    · rw [not_less_of_less comparableA comparableB lesser] at greater
      cases greater
    · rw [lesser] at notLess
      cases notLess
  · rcases ba with greater | ⟨-, later⟩
    · rw [greater] at notAfter
      cases notAfter
    · omega

/-- Coins that come in the stable order of others are in order themselves, each at its place. -/
theorem settled (comparable : ∀ c ∈ coins, o.measure.comparable c)
    (stable : o.StablyPlaced coins placed) :
    o.StablyPlaced (placed.map (·.1)) (placed.map (·.1)).zipIdx := by
  refine stablyPlaced_zipIdx (List.pairwise_map.2 (stable.inOrder.imp_of_mem ?_))
  intro a b insideA insideB before
  rcases before with lesser | ⟨notAfter, -⟩
  · exact not_less_of_less
      (comparable_zipIdx comparable a (stable.perm.mem_iff.1 insideA))
      (comparable_zipIdx comparable b (stable.perm.mem_iff.1 insideB)) lesser
  · exact notAfter

end StablyPlaced

/-- Arranged coins are arranged as they are. -/
theorem arrange_settled (comparable : ∀ c ∈ coins, o.measure.comparable c) :
    o.arrange ((o.arrange coins.zipIdx).map (·.1)).zipIdx =
      ((o.arrange coins.zipIdx).map (·.1)).zipIdx := by
  have stable := stablyPlaced_arrange comparable
  have comparable' : ∀ c ∈ (o.arrange coins.zipIdx).map (·.1), o.measure.comparable c := by
    intro c listed
    obtain ⟨d, placed, rfl⟩ := List.mem_map.1 listed
    exact comparable_zipIdx comparable d (stable.perm.mem_iff.1 placed)
  exact (stablyPlaced_arrange comparable').unique comparable' (stable.settled comparable)

end CoinSelection.Order
