/-
# CoinSelection.Proofs.OrderLeft -- the order that a selection leaves behind

A policy leaves its source in the stable order of its own measure, or as it was if it has none
(`Policy.Leaves`), whether it finds a selection or not.  In that order it changes nothing any more,
so it gives the same a second time (`Policy.run_settled`).

Among shared objects that order is made at the start.  What a search does afterwards, it does in
windows that it has made, and the objects that were there stay as they are through each of its parts
(`InPlace.Undisturbed`).
-/
import Mathlib
import CoinSelection.Proofs.StableOrder
import CoinSelection.Proofs.Transparent

namespace CoinSelection

open scoped List

set_option autoImplicit false

variable {source : Source} {coins : List Coin}

/-! ## Entries in a given order -/

namespace Source

/-- The source with its entries in a given order of their places. -/
def inOrder (s : Source) (order : List Nat) : Source :=
  match s with
  | collection coins => collection (order.filterMap (coins[·]?)).toArray
  | window source positions => window source (order.filterMap (positions[·]?)).toArray

theorem applySwaps_swapsTo (s : Source) {order : List Nat} (perm : order ~ List.range s.size) :
    s.applySwaps (Sort.swapsTo order) = s.inOrder order := by
  cases s with
  | collection coins =>
      simp only [applySwaps, inOrder, ← Sort.applySwaps_swapsTo coins order perm,
        Array.toArray_toList]
  | window source positions =>
      simp only [applySwaps, inOrder, ← Sort.applySwaps_swapsTo positions order perm,
        Array.toArray_toList]

end Source

/-! ## Policies -/

namespace Policy

/-- The order in which a policy leaves some coins, each with the place that it had. -/
def Leaves (p : Policy) (coins : List Coin) (placed : List (Coin × Nat)) : Prop :=
  match p with
  | minIndex => placed = coins.zipIdx
  | minNumber => (Order.mk .amount true).StablyPlaced coins placed
  | maxValueAge => (Order.mk .valueAge true).StablyPlaced coins placed
  | minPriority _ => (Order.mk .valueAge false).StablyPlaced coins placed

theorem comparable_of_amounts (amounts : ∀ c ∈ coins, c.amount.isNaN = false) (o : Order) :
    ∀ c ∈ coins, o.measure.comparable c := by
  intro c inside
  obtain ⟨measure, descending⟩ := o
  cases measure with
  | amount =>
      rw [Measure.comparable, amounts c inside]
      rfl
  | valueAge => rfl

theorem leaves_ordered (p : Policy) (amounts : ∀ c ∈ coins, c.amount.isNaN = false) :
    p.Leaves coins (p.ordered coins.zipIdx) := by
  have comparable := comparable_of_amounts amounts
  cases p with
  | minIndex => rfl
  | minNumber => exact Order.stablyPlaced_arrange (comparable ⟨.amount, true⟩)
  | maxValueAge => exact Order.stablyPlaced_arrange (comparable ⟨.valueAge, true⟩)
  | minPriority threshold => exact Order.stablyPlaced_arrange (comparable ⟨.valueAge, false⟩)

/-- There is one order in which a policy leaves some coins. -/
theorem leaves_unique {p : Policy} (amounts : ∀ c ∈ coins, c.amount.isNaN = false)
    {placed placed' : List (Coin × Nat)} (first : p.Leaves coins placed)
    (second : p.Leaves coins placed') : placed = placed' := by
  have comparable := comparable_of_amounts amounts
  cases p with
  | minIndex => exact Eq.trans first (Eq.symm second)
  | minNumber => exact Order.StablyPlaced.unique (comparable ⟨.amount, true⟩) first second
  | maxValueAge => exact Order.StablyPlaced.unique (comparable ⟨.valueAge, true⟩) first second
  | minPriority threshold =>
      exact Order.StablyPlaced.unique (comparable ⟨.valueAge, false⟩) first second

theorem ordered_settled (p : Policy) (amounts : ∀ c ∈ coins, c.amount.isNaN = false) :
    p.ordered ((p.ordered coins.zipIdx).map (·.1)).zipIdx =
      ((p.ordered coins.zipIdx).map (·.1)).zipIdx := by
  unfold ordered
  split
  · exact Order.arrange_settled (comparable_of_amounts amounts _)
  · rfl

theorem run_shown (shown : source.Shows coins) (p : Policy) (args : Args) (target : Float) :
    p.run args target source =
      (p.answer args.budget ⟨target, args.minChangeAmount⟩ ((p.ordered coins.zipIdx).map (·.1)),
        source.inOrder ((p.ordered coins.zipIdx).map (·.2))) := by
  rw [run, shown.apply_eq, sorted, source.applySwaps_swapsTo (shown.size_eq ▸ p.places_perm coins)]

theorem shows_inOrder (shown : source.Shows coins) (p : Policy) :
    (source.inOrder ((p.ordered coins.zipIdx).map (·.2))).Shows
      ((p.ordered coins.zipIdx).map (·.1)) := by
  rw [← source.applySwaps_swapsTo (shown.size_eq ▸ p.places_perm coins)]
  exact shown.sorted p

/-- In the order that it leaves, a policy changes nothing and gives the same again. -/
theorem run_settled (shown : source.Shows coins) (amounts : ∀ c ∈ coins, c.amount.isNaN = false)
    (p : Policy) (args : Args) (target : Float) :
    p.run args target (p.run args target source).2 = p.run args target source := by
  have shown' := p.shows_inOrder shown
  rw [run_shown shown]
  dsimp only
  generalize source.inOrder _ = left at shown' ⊢
  have inPlace := left.applySwaps_swapsTo (List.Perm.refl (List.range left.size))
  rw [run_shown shown', ordered_settled p amounts, List.zipIdx_map_fst, List.zipIdx_map_snd,
    ← List.range_eq_range', ← shown'.size_eq, ← inPlace, Sort.swapsTo_range, Source.applySwaps_nil]

end Policy

/-! ## Searches in shared objects -/

namespace InPlace

open MinPriority.Checked (Step Limits)

variable {s base : Session} {ref : Nat}

/-- Whatever a search goes on to do with an object of `size` entries that it has put in order, the
objects that were there stay as they are: while a window is tried, while another search is made in
a window over the coins in front, while a window is topped up, and while windows of several sizes
are tried and padded. -/
structure Undisturbed (base : Session) (limits : Limits) (threshold : Int) (target : Float)
    (ref size : Nat) : Prop where
  trial : ∀ start count now, base.Extends now → ∃ r,
    Keeps base (stretch ref start count >>= scan .minNumber limits target) now r
  inner : ∀ cutoff < size, ∀ limits lowered residual now, base.Extends now → ∃ r,
    Keeps base (stretch ref 0 cutoff >>= within size limits lowered residual) now r
  topUp : ∀ cutoff < size, ∀ count now, base.Extends now → ∃ r,
    Keeps base (topUp (within size) limits threshold target ref cutoff count) now r
  windows : ∀ cutoff < size, ∀ sizes now, base.Extends now → ∃ r,
    Keeps base (windows (within size) limits threshold target ref cutoff sizes) now r

theorem undisturbed (there : base.source? ref = some source) (limits : Limits) (threshold : Int)
    (target : Float) : Undisturbed base limits threshold target ref source.size where
  trial start count now grown := by
    obtain ⟨s', gives, grown', -⟩ := scan_window there grown .minNumber limits target start count
    exact ⟨_, .after rfl (.of_eq gives grown')⟩
  inner cutoff inside inner lowered residual now grown := by
    obtain ⟨s', gives, grown', -⟩ :=
      search_window (simulates_within source.size) there inside grown inner lowered residual
    exact ⟨_, .after rfl (.of_eq gives grown')⟩
  topUp cutoff inside count now grown :=
    ⟨_, topUp_keeps (simulates_within source.size) there inside count grown⟩
  windows cutoff inside sizes now grown :=
    ⟨_, windows_keeps (simulates_within source.size) there inside sizes grown⟩

/-- A selection in an object that can be read: its answer, and the objects afterwards. -/
theorem select_eq (there : s.source? ref = some source) (shown : source.Shows coins) (p : Policy)
    (args : Args) (target : Float) :
    ∃ s', select p args.limits target ref s =
        some (Step.of ((p.run args target source).1.map (·.map .nat)), s') ∧
      (s.reorder ref (p.run args target source).2).Extends s' ∧
      s'.source? ref = some (p.run args target source).2 := by
  obtain ⟨rearranged, s', gives, grown⟩ := select_follows there shown p args.limits target
  exact ⟨s', gives, grown, grown.source?_eq (Session.source?_reorder there rearranged)⟩

end InPlace

open InPlace MinPriority.Checked in
/-- After a selection, found or not, the coins stand in the stable order of the policy's measure, and
nothing that a search does after it has sorted them disturbs that.  So a second selection gives the
same and leaves the objects as they are. -/
theorem order_left {s : Session} {ref : Nat} {source : Source} {coins : List Coin}
    (there : s.source? ref = some source) (shown : source.Shows coins)
    (amounts : ∀ c ∈ coins, c.amount.isNaN = false) (p : Policy) (args : Args) (target : Float) :
    ∃ (placed : List (Coin × Nat)) (sorted : Source) (answer : Except Fault (List Nat))
      (s₁ s₂ : Session),
      p.Leaves coins placed ∧
      sorted = source.inOrder (placed.map (·.2)) ∧ sorted.Shows (placed.map (·.1)) ∧
      ((∃ places, answer = .ok places) ∨ answer = .error (.noSelection target)) ∧
      p.run args target source = (answer, sorted) ∧
      p.run args target sorted = (answer, sorted) ∧
      select p args.limits target ref s = some (Step.of (answer.map (·.map .nat)), s₁) ∧
      (s.reorder ref sorted).Extends s₁ ∧ s₁.source? ref = some sorted ∧
      select p args.limits target ref s₁ = some (Step.of (answer.map (·.map .nat)), s₂) ∧
      s₁.Extends s₂ ∧
      ∀ threshold, p = .minPriority threshold →
        select p args.limits target ref s =
          level (within source.size) args.limits threshold target ref s ∧
        Undisturbed (s.reorder ref sorted) args.limits threshold target ref source.size := by
  have settled := Policy.run_settled shown amounts p args target
  have run := Policy.run_shown shown p args target
  have shownSorted := p.shows_inOrder shown
  obtain ⟨s₁, gives, grown, after⟩ := select_eq there shown p args target
  rw [run] at settled gives grown after
  obtain ⟨s₂, gives', grown', -⟩ := select_eq after shownSorted p args target
  rw [settled, Session.reorder_self after] at grown'
  rw [settled] at gives'
  refine ⟨p.ordered coins.zipIdx, _, _, s₁, s₂, p.leaves_ordered amounts, rfl, shownSorted,
    p.answer_ends _ _ _, run, settled, gives, grown, after, gives', grown', ?_⟩
  rintro threshold rfl
  constructor
  · rw [← sizeAt_eq there]
    exact run_eq args.limits threshold target ref s
  · have rearranged : source.Rearranged ((Policy.minPriority threshold).run args target source).2 :=
      (select_follows there shown (.minPriority threshold) args.limits target).rearranged
    rw [run] at rearranged
    have same_size := shownSorted.size_eq
    rw [List.length_map, (Policy.ordered_perm _ _).length_eq, List.length_zipIdx,
      ← shown.size_eq] at same_size
    rw [← same_size]
    exact undisturbed (Session.source?_reorder there rearranged) args.limits threshold target

open InPlace in
/-- A search in a window over a window, with two coins of one value-age: they keep their order, and
a second search finds everything in place. -/
theorem order_left_window :
    ∃ (s s₁ s₂ : Session) (w sorted : Source) (args : Args) (coins : List Coin)
      (placed : List (Coin × Nat)),
      s.source? 2 = some w ∧ w.Shows coins ∧ coins.map (·.label) = ["d", "b", "a", "c"] ∧
      (Order.mk .valueAge false).StablyPlaced coins placed ∧
      sorted = w.inOrder (placed.map (·.2)) ∧ sorted.Shows (placed.map (·.1)) ∧
      placed.map (·.1.label) = ["c", "d", "b", "a"] ∧
      select (.minPriority 7) args.limits 6 2 s = some (.ok [.nat 3, .nat 1], s₁) ∧
      s₁.source? 2 = some sorted ∧
      select (.minPriority 7) args.limits 6 2 s₁ = some (.ok [.nat 3, .nat 1], s₂) ∧
      s₁.Extends s₂ := by
  let given : List Coin := [⟨"a", 4, 9⟩, ⟨"b", 2, 6⟩, ⟨"c", 1, 0⟩, ⟨"d", 2, 6⟩]
  let coins : List Coin := [⟨"d", 2, 6⟩, ⟨"b", 2, 6⟩, ⟨"a", 4, 9⟩, ⟨"c", 1, 0⟩]
  let middle : Array Index := #[.nat 2, .nat 1, .nat 0, .nat 3]
  let upper : Array Index := #[.nat 3, .nat 1, .nat 2, .real 0]
  let args : Args := ⟨3, 0, by decide +kernel, by decide +kernel⟩
  let w : Source := .window (.window (.collection given.toArray) middle) upper
  let s : Session := ⟨#[.collection given.toArray, .window 0 middle, .window 1 upper]⟩
  have there : s.source? 2 = some w := by simp [Session.source?, s, w]
  have shown : w.Shows coins := by rfl
  have places : ((Policy.minPriority 7).run args 6 w).1.toOption = some [3, 1] := by
    decide +kernel
  have after : (((Policy.minPriority 7).run args 6 w).2.slots.filterMap Except.toOption).map
      (·.label) = ["c", "d", "b", "a"] := by
    decide +kernel
  obtain ⟨placed, sorted, answer, s₁, s₂, leaves, isSorted, shows, -, run, -, gives, -, there₁,
    gives', grown, -⟩ := order_left there shown (by decide +kernel) (.minPriority 7) args 6
  rw [run, shows.filterMap_toOption, List.map_map] at after
  rw [run] at places
  cases answer with
  | error fault => cases places
  | ok found =>
      cases places
      exact ⟨s, s₁, s₂, w, sorted, args, coins, placed, there, shown, rfl, leaves, isSorted, shows,
        after, gives, there₁, gives', grown⟩

end CoinSelection
