/-
# CoinSelection.MinPriority.Checked -- the search step by step, with all that could go wrong

`MinPriority.select` is a search on lists, where nothing can fail.  Here the same search is made on
a source, one lookup at a time, and whatever could go wrong on the way is checked where it could: a
position that is not there, a coin taken from an empty subset, arguments of an inner search that are
refused, a division by zero, and an inner search on a source that is not smaller than the one it is
made for.  Each would end the search with a `Mishap`.

Only the want of a selection in an inner search is no mishap: the next number of coins is tried.
-/
import CoinSelection.Policy
import CoinSelection.Subset

namespace CoinSelection.MinPriority.Checked

set_option autoImplicit false

/-! ## Mishaps -/

inductive Mishap where
  /-- A fault of the library; the want of a selection is one of them. -/
  | fault (f : Fault)
  | divisionByZero
  /-- A search for a source within a search for one that is no larger. -/
  | notSmaller

/-- What a step on a source gives. -/
abbrev Step (α : Type) := Except Mishap α

def Step.of {α : Type} (e : Except Fault α) : Step α := e.mapError .fault

/-- The quotient, rounded toward zero. -/
def quotient (n d : Int) : Step Int := if d = 0 then .error .divisionByZero else .ok (n.tdiv d)

/-- The arguments of a search at any level: those of the outermost one are given, those of an inner
one are made for it. -/
structure Limits where
  budget : Nat
  minChange : Float
  minChange_whole : (Whole.nat? minChange).isSome

def Limits.of? (budget : Int) (minChange : Float) : Except Fault Limits :=
  if budget < 0 then .error (.invalidArgs (.maxInputs (toString budget)))
  else if h : (Whole.nat? minChange).isSome then .ok ⟨budget.toNat, minChange, h⟩
  else .error (.invalidArgs (.minChangeAmount (Layout.amount.number minChange)))

/-- A goal under given arguments. -/
def Limits.goal (limits : Limits) (target : Float) : Goal := ⟨target, limits.minChange⟩

/-- What a search gives: positions, and the source in the order in which it leaves it. -/
abbrev Outcome := Step (List Index) × Source

/-- A search with given arguments, for coins that average a threshold and pay for a target. -/
abbrev Search := Limits → Int → Float → Source → Outcome

/-! ## Parts of a level -/

/-- The window over `count` positions from `start` on. -/
def stretch (s : Source) (start count : Nat) : Source :=
  .window s ((List.range' start count).map Index.nat).toArray

/-- The first of some positions whose coin reaches the threshold. -/
def firstReaching (threshold : Int) (s : Source) : List Nat → Step (Option Nat)
  | [] => .ok none
  | n :: rest => do
      let c ← Step.of (s.coin (.nat n))
      if threshold ≤ c.valueAge then return some n else firstReaching threshold s rest

/-- Adds the coins at some positions to a subset, where the average and the budget allow. -/
def pad (limits : Limits) (threshold : Int) (target : Float) (s : Source) (subset : Subset) :
    List Nat → Step Subset
  | [] => .ok subset
  | n :: rest =>
      if limits.budget ≤ subset.size then .ok subset
      else do
        let c ← Step.of (s.coin (.nat n))
        if c.valueAge = 0 then pad limits threshold target s subset rest
        else
          let more ← Step.of (subset.pushBack s (.nat n))
          if more.totals.valueAge < threshold * more.size then
            return (← Step.of (more.popBack s)).2
          else if (limits.goal target).met more.totals.amount then
            pad limits threshold target s more rest
          else
            let (_, less) ← Step.of (more.popBack s)
            pad limits threshold target s less rest

/-- The window together with coins found in front of it, if they average the threshold. -/
def combine (threshold : Int) (s : Source) (window : Subset) (low : Source) (chosen : List Index) :
    Step (Option (List Index)) := do
  let all ← Step.of (Subset.ofIndexes s window.indexes)
  let combined ← Step.of (chosen.foldlM (fun subset k => do
    subset.pushBack s (← low.sourceIndex k)) all)
  if combined.totals.valueAge < threshold * combined.size then return none
  else return some combined.indexes

/-- Tops up all the coins of a window with some number of those in front of `cutoff`; the numbers
are tried in turn. -/
def topUpWith (search : Search) (limits : Limits) (threshold : Int) (target : Float) (s : Source)
    (cutoff : Nat) (window : Subset) (most : Array Float) : List Nat → Step (Option (List Index))
  | [] => .ok none
  | n :: rest =>
      let next := topUpWith search limits threshold target s cutoff window most rest
      let residual := target - window.totals.amount
      if most[n]?.getD 0 < residual then next
      else do
        let lowered ← quotient (threshold * (window.size + n : Nat) - window.totals.valueAge) n
        let inner ← Step.of (Limits.of? n limits.minChange)
        match search inner lowered residual (stretch s 0 cutoff) with
        | (.error (.fault (.noSelection _)), _) => next
        | (.error mishap, _) => throw mishap
        | (.ok chosen, low) =>
            match ← combine threshold s window low chosen with
            | some indexes => return some indexes
            | none => next

/-- Tops up the window of `size` coins from `cutoff` on. -/
def topUp (search : Search) (limits : Limits) (threshold : Int) (target : Float) (s : Source)
    (cutoff size : Nat) : Step (Option (List Index)) := do
  let window ← Step.of (Subset.ofIndexes s ((List.range' cutoff size).map .nat))
  let low ← Step.of ((List.range cutoff).mapM fun n => s.coin (.nat n))
  let most := (partialSums 0 (Order.largestFirst.amounts low)).toArray
  topUpWith search limits threshold target s cutoff window most
    (List.range' 1 (min cutoff (limits.budget - window.size)))

/-- Windows of several sizes, in turn. -/
def windows (search : Search) (limits : Limits) (threshold : Int) (target : Float) (s : Source)
    (cutoff : Nat) : List Nat → Step (List Index)
  | [] => .error (.fault (.noSelection target))
  | size :: rest =>
      match Policy.minNumber.apply limits.budget (limits.goal target) (stretch s cutoff size) with
      | (.error (.noSelection _), _) => do
          match ← topUp search limits threshold target s cutoff size with
          | some indexes => return indexes
          | none => windows search limits threshold target s cutoff rest
      | (.error fault, _) => .error (.fault fault)
      | (.ok places, window) => do
          let indexes ← Step.of (places.mapM fun k => window.sourceIndex (.nat k))
          let subset ← Step.of (Subset.ofIndexes s indexes)
          return (← pad limits threshold target s subset (List.range cutoff)).indexes

/-- What is found in a source in order. -/
def inOrder (search : Search) (limits : Limits) (threshold : Int) (target : Float) (s : Source) :
    Step (List Index) := do
  match ← firstReaching threshold s (List.range s.size) with
  | none => throw (.fault (.noSelection target))
  | some cutoff =>
      windows search limits threshold target s cutoff (List.range' 1 (s.size - cutoff))

/-- One level: the source is sorted, and searched with `search` for the inner levels. -/
def level (search : Search) : Search := fun limits threshold target s =>
  match s.sortSwaps (.ascending .valueAge) with
  | .error fault => (.error (.fault fault), s)
  | .ok swaps =>
      (inOrder search limits threshold target (s.applySwaps swaps), s.applySwaps swaps)

/-! ## All levels -/

/-- The search on a source. -/
def run (limits : Limits) (threshold : Int) (target : Float) (s : Source) : Outcome :=
  level (fun inner lowered residual low =>
    if low.size < s.size then run inner lowered residual low else (.error .notSmaller, low))
    limits threshold target s
termination_by s.size

end CoinSelection.MinPriority.Checked
