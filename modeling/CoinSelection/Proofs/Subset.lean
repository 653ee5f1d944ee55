/-
# CoinSelection.Proofs.Subset -- subsets as lists with totals

Where the coins at some positions can be read, adding them one after the other cannot fail: the
positions are appended, and the totals are summed on from the left (`foldlM_pushBack_read`).
Where it has not failed, the coins could be read (`foldlM_pushBack_ok`).
-/
import Mathlib
import CoinSelection.Subset
import CoinSelection.Proofs.Shown

namespace CoinSelection.Subset

set_option autoImplicit false

variable {source : Source}

/-- Adding a coin that can be read. -/
theorem pushBack_eq {i : Index} {c : Coin} (there : source.coin i = .ok c) (s : Subset) :
    pushBack source s i = .ok ⟨s.positions.pushBack i, s.totals.add c⟩ := by
  rw [pushBack, there]
  rfl

theorem size_eq (s : Subset) : s.size = s.indexes.length := (Deque.length_toList _).symm

theorem size_of_indexes {s : Subset} {coins : List (Coin × Nat)}
    (indexes : s.indexes = CoinSelection.positions coins) : s.size = coins.length := by
  rw [size_eq, indexes, List.length_map]

/-- A coin that was added can be taken out again.  The amount need not be what it was. -/
theorem popBack_pushBack {i : Index} {c : Coin} (there : source.coin i = .ok c) (s : Subset) :
    ∃ more less, pushBack source s i = .ok more ∧ popBack source more = .ok (c, less) ∧
      more.indexes = s.indexes ++ [i] ∧ more.totals = s.totals.add c ∧
      less.indexes = s.indexes ∧ less.totals = (s.totals.add c).remove c := by
  have last : (s.positions.pushBack i).back? = some i := by
    rw [Deque.back?_eq, Deque.toList_pushBack, List.getLast?_concat]
  refine ⟨_, ⟨(s.positions.pushBack i).popBack, (s.totals.add c).remove c⟩, pushBack_eq there s,
    ?_, ?_, rfl, ?_, rfl⟩
  · simp [popBack, last, there, bind, Except.bind, pure, Except.pure]
  · exact Deque.toList_pushBack _ _
  · simp [indexes]

/-- Adding coins that can be read. -/
theorem foldlM_pushBack_read {listed : List Index} {coins : List Coin}
    (read : listed.map source.coin = coins.map .ok) (s : Subset) :
    ∃ s', listed.foldlM (pushBack source) s = .ok s' ∧ s'.indexes = s.indexes ++ listed ∧
      s'.totals = coins.foldl Totals.add s.totals := by
  induction listed generalizing s coins with
  | nil =>
      obtain rfl := List.map_eq_nil_iff.1 read.symm
      exact ⟨s, rfl, (List.append_nil _).symm, rfl⟩
  | cons i listed ih =>
      obtain ⟨c, others, rfl, head, tail⟩ := List.map_eq_cons_iff.1 read.symm
      obtain ⟨s', folds, indexes, totals⟩ :=
        ih tail.symm ⟨s.positions.pushBack i, s.totals.add c⟩
      refine ⟨s', ?_, ?_, totals⟩
      · rw [List.foldlM_cons, pushBack_eq head.symm]
        exact folds
      · rw [indexes]
        simp [Subset.indexes]

theorem foldlM_pushBack {chosen : List (Coin × Nat)}
    (there : ∀ c ∈ chosen, source.coin (.nat c.2) = .ok c.1) (s : Subset) :
    ∃ s', (CoinSelection.positions chosen).foldlM (pushBack source) s = .ok s' ∧
      s'.indexes = s.indexes ++ CoinSelection.positions chosen ∧
      s'.totals = (chosen.map (·.1)).foldl Totals.add s.totals := by
  apply foldlM_pushBack_read
  rw [List.map_map, List.map_map]
  exact List.map_congr_left there

/-- Positions that have been added can be read. -/
theorem foldlM_pushBack_ok {listed : List Index} {s s' : Subset}
    (adds : listed.foldlM (pushBack source) s = .ok s') :
    ∃ coins : List Coin, listed.map source.coin = coins.map .ok ∧
      s'.indexes = s.indexes ++ listed ∧ s'.totals = coins.foldl Totals.add s.totals := by
  induction listed generalizing s with
  | nil =>
      cases adds
      exact ⟨[], rfl, (List.append_nil _).symm, rfl⟩
  | cons i listed ih =>
      rw [List.foldlM_cons] at adds
      cases there : source.coin i with
      | error fault =>
          rw [pushBack, there] at adds
          cases adds
      | ok c =>
          rw [pushBack_eq there] at adds
          obtain ⟨coins, read, indexes, totals⟩ := ih adds
          refine ⟨c :: coins, ?_, ?_, totals⟩
          · rw [List.map_cons, List.map_cons, there, read]
          · rw [indexes]
            simp [Subset.indexes]

/-- The subset of coins that can be read. -/
theorem ofIndexes_eq {chosen : List (Coin × Nat)}
    (there : ∀ c ∈ chosen, source.coin (.nat c.2) = .ok c.1) :
    ∃ s, ofIndexes source (CoinSelection.positions chosen) = .ok s ∧
      s.indexes = CoinSelection.positions chosen ∧ s.totals = .of (chosen.map (·.1)) :=
  foldlM_pushBack there empty

end CoinSelection.Subset
