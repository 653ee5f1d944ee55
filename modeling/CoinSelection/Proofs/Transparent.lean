/-
# CoinSelection.Proofs.Transparent -- a window is as good as the coins that it shows

What can be seen of a selection in an object is what it gives and what the object shows afterwards
(`InPlace.observe`).  Both follow from the coins that the object shows before (`observe_eq`), however
many windows lie between it and a collection, in whatever order their positions are and whether or
not they repeat.  So a window can be exchanged for a new collection of the coins that it shows
(`select_transparent`).

A selector, which lets its policy run on a window over the caller's coins, therefore selects what
the policy would have chosen in a collection of them (`Selector.select_coins`).
-/
import Mathlib
import CoinSelection.Proofs.InPlace
import CoinSelection.Proofs.Total

namespace CoinSelection

open scoped List

set_option autoImplicit false

namespace Policy

/-- The coins at the positions that a policy gives, read in the source as it leaves it. -/
def chosenCoins (p : Policy) (args : Args) (target : Float) (s : Source) :
    Except Fault (List Coin) := do
  let (answer, sorted) := p.run args target s
  (← answer).mapM fun k => sorted.coin (.nat k)

theorem answer_ends (p : Policy) (budget : Nat) (g : Goal) (coins : List Coin) :
    (∃ places, p.answer budget g coins = .ok places) ∨
      p.answer budget g coins = .error (.noSelection g.target) := by
  unfold answer
  split
  · left
    exact ⟨_, rfl⟩
  · right
    rfl

/-- A policy on a collection puts its coins in order. -/
theorem sorted_collection (p : Policy) (coins : List Coin) :
    p.sorted (.collection coins.toArray) coins =
      .collection ((p.ordered coins.zipIdx).map (·.1)).toArray := by
  have shown := (Source.shows_collection coins.toArray).sorted p
  rw [sorted, Source.applySwaps] at shown ⊢
  rw [← (Source.shows_collection _).unique shown]

end Policy

/-! ## Selections in place -/

namespace InPlace

open MinPriority.Checked (Step)

variable {s : Session} {ref : Nat} {source : Source} {coins : List Coin}

/-- What can be seen of a selection in an object: what it gives, and what the object shows
afterwards. -/
def observe (p : Policy) (args : Args) (target : Float) (ref : Nat) (s : Session) :
    Option (Step (List Index) × List Slot) := do
  let (given, s') ← select p args.limits target ref s
  return (given, (← s'.source? ref).slots)

/-- The coins that the object shows determine what can be seen. -/
theorem observe_eq (there : s.source? ref = some source) (shown : source.Shows coins) (p : Policy)
    (args : Args) (target : Float) :
    observe p args target ref s =
      some (Step.of ((p.answer args.budget ⟨target, args.minChangeAmount⟩
          ((p.ordered coins.zipIdx).map (·.1))).map (·.map .nat)),
        ((p.ordered coins.zipIdx).map (·.1)).map .ok) := by
  obtain ⟨rearranged, s', gives, grown⟩ := select_follows there shown p args.limits target
  have outcome := shown.apply_eq p args.limits.budget (args.limits.goal target)
  have slots : (p.sorted source coins).slots = _ := shown.sorted p
  rw [valued, outcome] at rearranged gives grown
  have after := grown.source?_eq (Session.source?_reorder there rearranged)
  simp only [observe, gives, after, Option.bind_eq_bind, Option.bind_some, slots]
  rfl

end InPlace

/-! ## Selectors -/

/-- A selector that accepts its target selects the coins that its policy chooses in a collection. -/
theorem Selector.select_coins (s : Selector) {target : Float} (whole : (Whole.nat? target).isSome)
    (coins : List Coin) :
    (s.select target coins).map (·.coins) =
      s.policy.chosenCoins s.args target (.collection coins.toArray) := by
  have shown := Source.shows_collection coins.toArray
  have sorted := (shown.sorted s.policy).coin_zipIdx
  set placed := s.policy.ordered coins.zipIdx with isPlaced
  rw [select_eq s whole, ← isPlaced, Policy.choose_retag, Policy.chosenCoins, Policy.run,
    shown.apply_eq, Policy.answer, ← isPlaced]
  cases chooses : s.policy.choose s.args.budget ⟨target, s.args.minChangeAmount⟩
      (placed.map (·.1)).zipIdx with
  | none => rfl
  | some chosen =>
      have read := Source.mapM_coin fun c listed =>
        sorted c ((Policy.choose_picked chooses).among.subset listed)
      simp only [Option.map_some, Except.map, List.map_map]
      exact read.symm

open InPlace MinPriority.Checked in
/-- Whatever windows lie between an object and a collection, a selection in the object gives what it
gives in a new collection of the coins that the object shows, and leaves both showing the same; and
so do the policies on values.  A selector selects what its policy chooses in a collection. -/
theorem select_transparent {s : Session} {ref : Nat} {w : Source}
    (there : s.source? ref = some w) (inRange : w.InRange) (p : Policy) (args : Args)
    (target : Float) :
    ∃ (coins sorted : List Coin) (answer : Except Fault (List Nat)),
      w.Shows coins ∧
      ((∃ places, answer = .ok places) ∨ answer = .error (.noSelection target)) ∧
      observe p args target ref s =
        some (Step.of (answer.map (·.map .nat)), sorted.map .ok) ∧
      observe p args target 0 (.ofCoins coins) =
        some (Step.of (answer.map (·.map .nat)), sorted.map .ok) ∧
      (p.run args target w).1 = answer ∧ (p.run args target w).2.Shows sorted ∧
      p.run args target (.collection coins.toArray) = (answer, .collection sorted.toArray) ∧
      ∀ given : List Coin, (Whole.nat? target).isSome →
        ((⟨p, args⟩ : Selector).select target given).map (·.coins) =
          p.chosenCoins args target (.collection given.toArray) := by
  obtain ⟨coins, shown⟩ := inRange.shows
  have fresh : (Source.collection coins.toArray).Shows coins := Source.shows_collection _
  have freshThere : (Session.ofCoins coins).source? 0 = some (.collection coins.toArray) :=
    Session.source?_eq_collection.2 rfl
  have onWindow := shown.apply_eq p args.budget ⟨target, args.minChangeAmount⟩
  have onFresh := fresh.apply_eq p args.budget ⟨target, args.minChangeAmount⟩
  refine ⟨coins, _, _, shown, p.answer_ends _ _ _, observe_eq there shown p args target,
    observe_eq freshThere fresh p args target, ?_, ?_, ?_, ?_⟩
  · rw [Policy.run, onWindow]
  · rw [Policy.run, onWindow]
    exact shown.sorted p
  · rw [Policy.run, onFresh, Policy.sorted_collection]
  · intro given whole
    exact Selector.select_coins ⟨p, args⟩ whole given

open InPlace in
/-- A search in a window over a window that names one position twice: an aged coin falls short and
is topped up out of a window over both. -/
theorem select_transparent_nested :
    ∃ (s : Session) (w : Source) (args : Args) (coins sorted : List Coin),
      s.source? 2 = some w ∧ w.InRange ∧ w.Shows coins ∧
      coins.map (·.label) = ["b", "b", "a", "c"] ∧ sorted.map (·.label) = ["c", "b", "b", "a"] ∧
      observe (.minPriority 7) args 6 2 s = some (.ok [.nat 3, .nat 1], sorted.map .ok) ∧
      observe (.minPriority 7) args 6 0 (.ofCoins coins) =
        some (.ok [.nat 3, .nat 1], sorted.map .ok) := by
  let given : List Coin := [⟨"a", 4, 9⟩, ⟨"b", 2, 6⟩, ⟨"c", 1, 0⟩]
  let middle : Array Index := #[.nat 2, .nat 1, .nat 0, .nat 1]
  let upper : Array Index := #[.nat 1, .nat 3, .nat 2, .real 0]
  let args : Args := ⟨3, 0, by decide +kernel, by decide +kernel⟩
  let w : Source := .window (.window (.collection given.toArray) middle) upper
  let s : Session := ⟨#[.collection given.toArray, .window 0 middle, .window 1 upper]⟩
  have there : s.source? 2 = some w := by simp [Session.source?, s, w]
  have inRange : w.InRange := ⟨⟨trivial, by decide +kernel⟩, by decide +kernel⟩
  have places : ((Policy.minPriority 7).run args 6 w).1.toOption = some [3, 1] := by
    decide +kernel
  have before : (w.slots.filterMap Except.toOption).map (·.label) = ["b", "b", "a", "c"] := by
    decide +kernel
  have after : (((Policy.minPriority 7).run args 6 w).2.slots.filterMap Except.toOption).map
      (·.label) = ["c", "b", "b", "a"] := by
    decide +kernel
  obtain ⟨coins, sorted, answer, shown, -, inWindow, fresh, gives, leaves, -, -⟩ :=
    select_transparent there inRange (.minPriority 7) args 6
  rw [gives] at places
  rw [shown.filterMap_toOption] at before
  rw [leaves.filterMap_toOption] at after
  cases answer with
  | error fault => cases places
  | ok found =>
      cases places
      exact ⟨s, w, args, coins, sorted, there, inRange, shown, before, after, inWindow, fresh⟩

end CoinSelection
