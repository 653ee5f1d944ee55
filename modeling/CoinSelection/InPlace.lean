/-
# CoinSelection.InPlace -- selections on objects that are shared

`MinPriority.Checked` takes sources as values, so what is done to one cannot show in another.  Here
the policies work on the objects of a session.  A source is named by its number, a window made on
the way is a new object that refers to what it looks at, a sort exchanges two entries of one object
at a time, and every lookup goes through the objects as they are then.  So whatever is done to an
object shows wherever it is looked at, and stays done when something fails later on.

What is looked up, and what is done with the coins, is as in `MinPriority.Checked`.
-/
import CoinSelection.MinPriority.Checked
import CoinSelection.Session

namespace CoinSelection.InPlace

open MinPriority (partialSums)
open MinPriority.Checked (Mishap Step Limits quotient firstReaching pad combine)

set_option autoImplicit false

/-! ## Actions -/

/-- A step that works on the objects of a session.  There is no outcome if a number that it is about
stands for no source. -/
abbrev Action (α : Type) := ExceptT Mishap (StateT Session Option) α

/-- A search with given arguments in the source with a number. -/
abbrev Search := Limits → Int → Float → Nat → Action (List Index)

/-- The source that a number stands for, as it is now. -/
def look (ref : Nat) : Action Source :=
  ExceptT.mk fun s => (s.source? ref).map fun source => (.ok source, s)

/-- Makes the window over `count` positions from `start` on; the answer is its number. -/
def stretch (ref start count : Nat) : Action Nat :=
  ExceptT.mk fun s => some (.ok s.objects.size,
    s.push (.window ref ((List.range' start count).map Index.nat).toArray))

/-- Exchanges two entries of an object. -/
def swap (ref i j : Nat) : Action Unit := do
  let swapped ← Step.of ((← look ref).swap (.nat i) (.nat j))
  modify fun s => s.reorder ref swapped

/-- Exchanges entries of an object, two at a time. -/
def swapAll (ref : Nat) : List (Nat × Nat) → Action Unit
  | [] => return ()
  | (i, j) :: rest => do
      swap ref i j
      swapAll ref rest

/-- Puts an object in the order of a policy. -/
def arrange (p : Policy) (ref : Nat) : Action Unit := do
  swapAll ref (← Step.of (p.swaps (← look ref)))

/-- Puts an object in the order of a policy and scans it. -/
def scan (p : Policy) (limits : Limits) (target : Float) (ref : Nat) : Action (List Nat) := do
  arrange p ref
  Step.of (p.choosePositions limits.budget (limits.goal target) (← look ref).slots)

/-- The want of a selection as a value.  What was done until then stays done. -/
def attempt {α : Type} (action : Action α) : Action (Option α) :=
  tryCatch (some <$> action) fun
    | .fault (.noSelection _) => return none
    | mishap => throw mishap

/-! ## Selections with a least average value-age -/

/-- Tops up all the coins of a window with some number of those in front of `cutoff`; the numbers
are tried in turn, each on a window of its own. -/
def topUpWith (search : Search) (limits : Limits) (threshold : Int) (target : Float) (ref : Nat)
    (cutoff : Nat) (window : Subset) (most : Array Float) : List Nat → Action (Option (List Index))
  | [] => return none
  | n :: rest =>
      let next := topUpWith search limits threshold target ref cutoff window most rest
      let residual := target - window.totals.amount
      if most[n]?.getD 0 < residual then next
      else do
        let lowered ← quotient (threshold * (window.size + n : Nat) - window.totals.valueAge) n
        let low ← stretch ref 0 cutoff
        let inner ← Step.of (Limits.of? n limits.minChange)
        match ← attempt (search inner lowered residual low) with
        | none => next
        | some chosen =>
            match ← combine threshold (← look ref) window (← look low) chosen with
            | some indexes => return some indexes
            | none => next

/-- Tops up the window of `size` coins from `cutoff` on. -/
def topUp (search : Search) (limits : Limits) (threshold : Int) (target : Float) (ref : Nat)
    (cutoff size : Nat) : Action (Option (List Index)) := do
  let window ← Step.of (Subset.ofIndexes (← look ref) ((List.range' cutoff size).map .nat))
  let s ← look ref
  let low ← Step.of ((List.range cutoff).mapM fun n => s.coin (.nat n))
  let most := (partialSums 0 (Order.largestFirst.amounts low)).toArray
  topUpWith search limits threshold target ref cutoff window most
    (List.range' 1 (min cutoff (limits.budget - window.size)))

/-- Windows of several sizes, in turn. -/
def windows (search : Search) (limits : Limits) (threshold : Int) (target : Float) (ref : Nat)
    (cutoff : Nat) : List Nat → Action (List Index)
  | [] => throw (.fault (.noSelection target))
  | size :: rest => do
      let high ← stretch ref cutoff size
      match ← attempt (scan .minNumber limits target high) with
      | none =>
          match ← topUp search limits threshold target ref cutoff size with
          | some indexes => return indexes
          | none => windows search limits threshold target ref cutoff rest
      | some places => do
          let window ← look high
          let indexes ← Step.of (places.mapM fun k => window.sourceIndex (.nat k))
          let subset ← Step.of (Subset.ofIndexes (← look ref) indexes)
          return (← pad limits threshold target (← look ref) subset (List.range cutoff)).indexes

/-- One level: the object is put in order, and searched with `search` for the inner levels. -/
def level (search : Search) : Search := fun limits threshold target ref => do
  arrange (.minPriority threshold) ref
  let s ← look ref
  match ← firstReaching threshold s (List.range s.size) with
  | none => throw (.fault (.noSelection target))
  | some cutoff =>
      windows search limits threshold target ref cutoff (List.range' 1 (s.size - cutoff))

/-- The number of entries of an object that is a source. -/
def sizeAt (s : Session) (ref : Nat) : Nat := (s.source? ref).elim 0 Source.size

/-- The search in an object. -/
def run (limits : Limits) (threshold : Int) (target : Float) (ref : Nat) (s : Session) :
    Option (Step (List Index) × Session) :=
  level (fun inner lowered residual low => ExceptT.mk fun now =>
    if sizeAt now low < sizeAt s ref then run inner lowered residual low now
    else some (.error .notSmaller, now)) limits threshold target ref s
termination_by sizeAt s ref

/-- The search for the inner levels of a search in an object of `size` entries. -/
def within (size : Nat) : Search := fun limits threshold target ref => ExceptT.mk fun now =>
  if sizeAt now ref < size then run limits threshold target ref now
  else some (.error .notSmaller, now)

theorem run_eq (limits : Limits) (threshold : Int) (target : Float) (ref : Nat) (s : Session) :
    run limits threshold target ref s =
      level (within (sizeAt s ref)) limits threshold target ref s :=
  run.eq_1 limits threshold target ref s

/-! ## All policies -/

/-- The positions that a policy chooses in an object. -/
def select (p : Policy) (limits : Limits) (target : Float) (ref : Nat) : Action (List Index) :=
  match p with
  | .minPriority threshold => ExceptT.mk (run limits threshold target ref)
  | .minIndex | .minNumber | .maxValueAge => do
      return (← scan p limits target ref).map .nat

end CoinSelection.InPlace
