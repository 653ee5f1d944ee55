/-
# CoinSelection.Proofs.Policy -- what a policy chooses, and where its places lead

Whatever the policy, coins are taken out of the given ones within the budget (`choose_picked`), and
tags can be renamed before or after (`choose_map`).

A policy that runs on a window answers with places in it, after it has reordered the window; looked
up there, they are places of what the window looks at.  `apply_window_some` says which: the policy
chooses out of the coins in its own order, each tagged with the place that the window had for it.
-/
import Mathlib
import CoinSelection.Proofs.MinPriority.Selects
import CoinSelection.Proofs.Shown

namespace CoinSelection

open scoped List

set_option autoImplicit false

variable {τ υ : Type}

namespace Policy

variable {p : Policy} {budget : Nat} {g : Goal} {coins chosen : List (Coin × τ)}

/-- Whatever the policy, coins are taken out of the given ones within the budget. -/
theorem choose_picked (chooses : p.choose budget g coins = some chosen) :
    Picked budget coins chosen := by
  cases p with
  | minPriority threshold => exact (MinPriority.select_selects chooses).picked
  | minIndex => exact (Goal.scan_eq_some chooses).1
  | minNumber => exact (Goal.scan_eq_some chooses).1
  | maxValueAge => exact (Goal.scan_eq_some chooses).1

/-- A scan answers with the total that it tested. -/
theorem choose_met (isScan : ∀ threshold, p ≠ minPriority threshold)
    (chooses : p.choose budget g coins = some chosen) :
    g.met (Totals.of (chosen.map (·.1))).amount := by
  cases p with
  | minPriority threshold => exact absurd rfl (isScan threshold)
  | minIndex => exact (Goal.scan_eq_some chooses).2
  | minNumber => exact (Goal.scan_eq_some chooses).2
  | maxValueAge => exact (Goal.scan_eq_some chooses).2

theorem choose_map (p : Policy) (budget : Nat) (g : Goal) (f : τ → υ) (coins : List (Coin × τ)) :
    p.choose budget g (coins.map fun c => (c.1, f c.2)) =
      (p.choose budget g coins).map (·.map fun c => (c.1, f c.2)) := by
  cases p with
  | minPriority threshold => exact MinPriority.select_map f budget threshold g coins
  | minIndex => exact Goal.scan_map g budget f coins
  | minNumber => exact Goal.scan_map g budget f coins
  | maxValueAge => exact Goal.scan_map g budget f coins

/-- The coins come to the search in ascending order. -/
theorem ascending_ordered (threshold : Int) (coins : List Coin) :
    Order.Ascending (((minPriority threshold).ordered coins.zipIdx).map (·.1)).zipIdx := by
  have sorted : Order.Ascending ((minPriority threshold).ordered coins.zipIdx) :=
    Order.ascending_arrange coins.zipIdx
  have untagged : (((minPriority threshold).ordered coins.zipIdx).map (·.1)).Pairwise
      fun a b => a.valueAge ≤ b.valueAge :=
    List.pairwise_map.2 sorted
  rw [← List.zipIdx_map_fst 0 (List.map _ _)] at untagged
  rwa [List.pairwise_map] at untagged

/-! ## Places carried back -/

/-- The window at the tags of some coins. -/
abbrev tagged (s : Source) (coins : List (Coin × Nat)) : Source :=
  .window s (positions coins).toArray

theorem shows_tagged {s : Source} {coins : List (Coin × Nat)}
    (there : ∀ c ∈ coins, s.coin (.nat c.2) = .ok c.1) :
    (tagged s coins).Shows (coins.map (·.1)) := by
  unfold Source.Shows
  rw [Source.slots_window, List.map_map, List.map_map]
  exact List.map_congr_left there

/-- Places in a list of tagged coins, looked up in the tags. -/
theorem retag_zipIdx (coins : List (Coin × Nat)) :
    (coins.map (·.1)).zipIdx.map (fun c => (c.1, (coins.map (·.2))[c.2]?.getD 0)) = coins := by
  apply List.ext_getElem
  · simp
  · intro k _ inside
    simp [List.getElem?_eq_getElem inside]

theorem sourceIndex_tagged (s : Source) {coins : List (Coin × Nat)} {k : Nat}
    (inside : k < coins.length) :
    (tagged s coins).sourceIndex (.nat k) = .ok (.nat ((coins.map (·.2))[k]?.getD 0)) := by
  simp [Source.sourceIndex, Shelf.entry_nat, inside]

/-- Tags are in the order of their coins. -/
theorem ordered_retag (p : Policy) (coins : List (Coin × Nat)) :
    p.ordered coins =
      (p.ordered (coins.map (·.1)).zipIdx).map
        fun c => (c.1, (coins.map (·.2))[c.2]?.getD 0) := by
  rw [← ordered_map p fun k => (coins.map (·.2))[k]?.getD 0, retag_zipIdx]

/-- A window that a policy has sorted looks at the places in their new order. -/
theorem sorted_tagged (p : Policy) (s : Source) (coins : List (Coin × Nat)) :
    p.sorted (tagged s coins) (coins.map (·.1)) = tagged s (p.ordered coins) := by
  set held := (positions coins).toArray with isHeld
  set placed := p.ordered (coins.map (·.1)).zipIdx with isPlaced
  have perm : placed.map (·.2) ~ List.range held.size := by
    simpa [isHeld] using p.places_perm (coins.map (·.1))
  have moved := Sort.applySwaps_swapsTo held _ perm
  -- the place that the window held there
  have read : ∀ c ∈ placed, held[c.2]? = some (.nat ((coins.map (·.2))[c.2]?.getD 0)) := by
    intro c listed
    have inside := List.mem_range.1 (perm.mem_iff.1 (List.mem_map_of_mem listed))
    have inside : c.2 < coins.length := by simpa [isHeld] using inside
    simp [isHeld, inside]
  rw [List.filterMap_map] at moved
  have tags := moved.trans (List.filterMap_congr read)
  rw [List.filterMap_eq_map'] at tags
  show Source.window s (Sort.applySwaps held _) = _
  rw [tagged, ordered_retag p coins, positions, List.map_map, ← isPlaced]
  exact congrArg _ (Array.toList_inj.1 tags)

section Window

variable {p : Policy} {budget : Nat} {g : Goal} {s : Source} {coins : List (Coin × Nat)}

/-- A policy on a window over coins that can be read, in terms of their tags. -/
theorem apply_tagged (there : ∀ c ∈ coins, s.coin (.nat c.2) = .ok c.1) :
    p.apply budget g (tagged s coins) =
      (p.answer budget g ((p.ordered coins).map (·.1)), tagged s (p.ordered coins)) := by
  have untagged : (p.ordered (coins.map (·.1)).zipIdx).map (·.1) = (p.ordered coins).map (·.1) := by
    rw [ordered_retag p coins, List.map_map]
    rfl
  rw [(shows_tagged there).apply_eq, untagged, sorted_tagged]

theorem choose_retag (p : Policy) (budget : Nat) (g : Goal) (coins : List (Coin × Nat)) :
    p.choose budget g coins =
      (p.choose budget g (coins.map (·.1)).zipIdx).map
        (·.map fun c => (c.1, (coins.map (·.2))[c.2]?.getD 0)) := by
  rw [← choose_map p budget g fun k => (coins.map (·.2))[k]?.getD 0, retag_zipIdx]

theorem apply_window_none (there : ∀ c ∈ coins, s.coin (.nat c.2) = .ok c.1)
    (none : p.choose budget g (p.ordered coins) = none) :
    p.apply budget g (tagged s coins) =
      (.error (.noSelection g.target), tagged s (p.ordered coins)) := by
  rw [choose_retag, Option.map_eq_none_iff] at none
  rw [apply_tagged there, answer, none]

/-- The places that a policy answers with lead to the tags of what it chooses. -/
theorem apply_window_some {chosen : List (Coin × Nat)}
    (there : ∀ c ∈ coins, s.coin (.nat c.2) = .ok c.1)
    (some : p.choose budget g (p.ordered coins) = some chosen) :
    ∃ places : List Nat,
      p.apply budget g (tagged s coins) = (.ok places, tagged s (p.ordered coins)) ∧
      places.mapM (fun k => (tagged s (p.ordered coins)).sourceIndex (.nat k)) =
        .ok (positions chosen) := by
  rw [choose_retag, Option.map_eq_some_iff] at some
  obtain ⟨placed, chooses, rfl⟩ := some
  refine ⟨placed.map (·.2), ?_, mapM_eq_ok_iff.2 ?_⟩
  · rw [apply_tagged there, answer, chooses]
  · simp only [List.map_map]
    apply List.map_congr_left
    intro c listed
    have inside := (choose_picked chooses).inside c listed
    rw [List.length_map] at inside
    exact sourceIndex_tagged s inside

end Window

end Policy

end CoinSelection
