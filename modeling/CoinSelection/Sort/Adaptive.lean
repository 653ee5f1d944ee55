/-
# CoinSelection.Sort.Adaptive -- a merge sort of the runs that are there

The sort cuts a list into chunks (`Sort.Runs`), sorts each by binary insertion, and merges
neighbours so that their lengths stay balanced.  A merge that keeps taking from one side changes
from single comparisons to searches with doubling strides, and back when that no longer pays.

For a comparison that is a strict weak order the result is the stable sort, and which elements are
compared makes no difference.  It does for a comparison that is not, such as one on amounts with a
NaN among them; then the result is what this sequence of comparisons gives, and this module is
what says which sequence that is.
-/
import CoinSelection.Sort.Runs

namespace CoinSelection.Sort.Adaptive

set_option autoImplicit false

variable {α : Type}

/-! ## Search -/

/-- Halves `[left, right)` down to one place: to the left if `p` holds in the middle, else right. -/
def bisect (p : Nat → Bool) (left right : Nat) : Nat :=
  if left < right then
    let middle := left + (right - left) / 2
    if p middle then bisect p left middle else bisect p (middle + 1) right
  else left
termination_by right - left

/-- Lengthens a stride from `next` until `stop` holds there or `limit` is reached; the answer is the
last stride that did not stop and the one that did. -/
def stride (stop : Nat → Bool) (limit last next : Nat) : Nat × Nat :=
  if next < limit then
    if stop next then (last, next) else stride stop limit next (2 * next + 1)
  else (last, limit)
termination_by limit - next

/-- A place in `[0, length]` where `p` turns from false to true, looked for from `hint` outward. -/
def boundary (p : Nat → Bool) (length hint : Nat) : Nat :=
  if p hint then
    let (last, next) := stride (fun d => !p (hint - d)) (hint + 1) 0 1
    bisect p (hint + 1 - next) (hint - last)
  else
    let (last, next) := stride (fun d => p (hint + d)) (length - hint) 0 1
    bisect p (hint + last + 1) (hint + next)

/-- Where `x` goes in a sorted list: before the first element that is greater. -/
def upperBound (less : α → α → Bool) (x : α) (xs : List α) (hint : Nat) : Nat :=
  boundary (fun k => xs[k]?.any fun y => less x y) xs.length hint

/-- Where `x` goes in a sorted list: before the first element that is not less. -/
def lowerBound (less : α → α → Bool) (x : α) (xs : List α) (hint : Nat) : Nat :=
  boundary (fun k => xs[k]?.any fun y => !less y x) xs.length hint

/-! ## Chunks -/

/-- Puts `x` into a sorted list, behind its equals. -/
def insert (less : α → α → Bool) (sorted : List α) (x : α) : List α :=
  let place := bisect (fun k => sorted[k]?.any fun y => less x y) 0 sorted.length
  sorted.take place ++ x :: sorted.drop place

/-- The run at the front of a list, in ascending order. -/
def frontRun (less : α → α → Bool) (xs : List α) : List α :=
  let run := xs.take (runLength less xs)
  match run with
  | x :: y :: _ => if less y x then run.reverse else run
  | _ => run

/-- The sorted chunks of a list. -/
def chunks (less : α → α → Bool) (least : Nat) (xs : List α) : List (List α) :=
  if _ : xs = [] then []
  else
    let size := chunkLength less least xs.length xs
    let rest := (xs.take size).drop (runLength less xs)
    rest.foldl (insert less) (frontRun less xs) :: chunks less least (xs.drop size)
termination_by xs.length
decreasing_by
  have filled : xs ≠ [] := ‹_›
  have := runLength_pos less filled
  have := List.length_pos_iff.2 filled
  simp only [List.length_drop, chunkLength]
  omega

/-! ## Merging two runs -/

/-- Which of the two lists of a merge. -/
inductive Side where
  | first
  | second

def Side.other : Side → Side
  | first => second
  | second => first

/-- How a merge compares.  It takes from the front of two lists and may be left with one element of
the first, which then goes last. -/
structure Comparison (α : Type) where
  /-- Whether the front of the second list goes before the front of the first. -/
  takesSecond : α → α → Bool
  /-- How many of the first list go before an element of the second. -/
  firstAhead : List α → α → Nat
  /-- How many of the second list go before an element of the first. -/
  secondAhead : List α → α → Nat
  /-- The list that is searched first. -/
  leads : Side

namespace Comparison

/-- Merges from the left: the first list is the left one. -/
def leftward (less : α → α → Bool) : Comparison α where
  takesSecond x y := less y x
  firstAhead xs y := upperBound less y xs 0
  secondAhead ys x := lowerBound less x ys 0
  leads := .first

/-- Merges from the right: both lists are reversed, and the first is the right one. -/
def rightward (less : α → α → Bool) : Comparison α where
  takesSecond x y := less x y
  firstAhead xs y := xs.length - lowerBound less y xs.reverse (xs.length - 1)
  secondAhead ys x := ys.length - upperBound less x ys.reverse (ys.length - 1)
  leads := .second

end Comparison

/-- How a merge proceeds. -/
inductive Pace where
  /-- One comparison at a time; counts the takes from either side since it changed. -/
  | counting (first second : Nat)
  /-- The first search of a round. -/
  | opening
  /-- The second search of a round; the first skipped over `skipped` elements. -/
  | closing (skipped : Nat)
  /-- A round is over; its searches skipped over so many elements. -/
  | weighing (skipped skipped' : Nat)

/-- A search that skips over this many elements has paid. -/
def payingSkip : Nat := 7

/-- The patience and the pace with which a step begins.  A round of searches that has paid is
followed by another. -/
def Pace.settle (patience : Nat) : Pace → Nat × Pace
  | .weighing m n =>
      if payingSkip ≤ m ∨ payingSkip ≤ n then (max 1 (patience - 1), .opening)
      else (patience + 1, .counting 0 0)
  | pace => (patience, pace)

/-- The state between two steps of a merge.  `patience` is how many takes in a row from one side
begin a round of searches. -/
structure Merge (α : Type) where
  first : List α
  second : List α
  patience : Nat
  pace : Pace

/-- Searches one side for the front of the other, takes what goes before it and then that front. -/
def Merge.search (c : Comparison α) (side : Side) (x y : α) (xs ys : List α) :
    List α × List α × List α × Nat :=
  match side with
  | .first =>
      let n := c.firstAhead (x :: xs) y
      ((x :: xs).take n ++ [y], (x :: xs).drop n, ys, n)
  | .second =>
      let n := c.secondAhead (y :: ys) x
      ((y :: ys).take n ++ [x], xs, (y :: ys).drop n, n)

/-- One step with `x` and `y` in front: what is taken, and the state after it. -/
def Merge.step (c : Comparison α) (patience : Nat) (pace : Pace) (x y : α) (xs ys : List α) :
    List α × Merge α :=
  let (patience, pace) := pace.settle patience
  match pace with
  | .counting m n =>
      if c.takesSecond x y then
        ([y], ⟨x :: xs, ys, patience, if patience ≤ n + 1 then .opening else .counting 0 (n + 1)⟩)
      else
        ([x], ⟨xs, y :: ys, patience, if patience ≤ m + 1 then .opening else .counting (m + 1) 0⟩)
  | .opening | .weighing .. =>
      let (taken, xs, ys, n) := search c c.leads x y xs ys
      (taken, ⟨xs, ys, patience, .closing n⟩)
  | .closing m =>
      let (taken, xs, ys, n) := search c c.leads.other x y xs ys
      (taken, ⟨xs, ys, patience, .weighing m n⟩)

/-- Merges until a side is empty or the first is down to its last element.  Each step takes an
element, so `fuel` is the number of elements.  The answer has the patience at the end. -/
def Merge.run (c : Comparison α) : Nat → Merge α → List α × Nat
  | 0, s => (s.first ++ s.second, s.patience)
  | fuel + 1, s =>
      match s.first, s.second with
      | xs, [] => (xs, s.patience)
      | [], ys => (ys, s.patience)
      | [x], ys => (ys ++ [x], s.patience)
      | x :: xs, y :: ys =>
          let (taken, next) := Merge.step c s.patience s.pace x y xs ys
          let (rest, patience) := Merge.run c fuel next
          (taken ++ rest, patience)

/-- Merges two neighbouring sorted runs.  What the left run has before the front of the right one,
and the right run behind the end of the left one, stays where it is; of the rest the shorter side
is the one that a merge may empty early. -/
def mergeRuns (less : α → α → Bool) (patience : Nat) (left right : List α) : List α × Nat :=
  match right with
  | [] => (left, patience)
  | y :: _ =>
      let before := upperBound less y left 0
      match (left.drop before).getLast? with
      | none => (left ++ right, patience)
      | some x =>
          let upTo := lowerBound less x right (right.length - 1)
          match left.drop before, right.take upTo with
          | _, [] => (left ++ right, patience)
          | xs, y :: ys =>
              let (merged, patience) :=
                if xs.length ≤ ys.length + 1 then
                  let (rest, patience) := Merge.run (.leftward less) (xs.length + ys.length)
                    ⟨xs, ys, patience, .counting 0 0⟩
                  (y :: rest, patience)
                else
                  let (rest, patience) := Merge.run (.rightward less) (xs.length + ys.length)
                    ⟨(y :: ys).reverse, xs.dropLast.reverse, patience, .counting 0 0⟩
                  ((x :: rest).reverse, patience)
              (left.take before ++ merged ++ right.drop upTo, patience)

/-! ## Merging all runs -/

/-- Runs that wait to be merged, the latest in front. -/
structure Pending (α : Type) where
  runs : List (List α)
  patience : Nat

/-- Whether the lengths of the latest runs are out of balance: each run that waits must be longer
than the two behind it together. -/
def crowded (c b : List α) : List (List α) → Bool
  | [] => false
  | [a] => a.length ≤ b.length + c.length
  | a :: z :: _ => a.length ≤ b.length + c.length || z.length ≤ a.length + b.length

/-- Merges the latest runs until they are in balance, or, `toOne`, until one is left. -/
def collapse (less : α → α → Bool) (toOne : Bool) (patience : Nat) : List (List α) → Pending α
  | c :: b :: rest =>
      if toOne || crowded c b rest || b.length ≤ c.length then
        match rest with
        | a :: older =>
            if (toOne || crowded c b rest) && a.length < c.length then
              let (merged, patience) := mergeRuns less patience a b
              collapse less toOne patience (c :: merged :: older)
            else
              let (merged, patience) := mergeRuns less patience b c
              collapse less toOne patience (merged :: a :: older)
        | [] =>
            let (merged, patience) := mergeRuns less patience b c
            collapse less toOne patience [merged]
      else ⟨c :: b :: rest, patience⟩
  | runs => ⟨runs, patience⟩
termination_by runs => runs.length

/-- Sorts a list.  The first patience of a merge is the skip that pays. -/
def sort (less : α → α → Bool) (xs : List α) : List α :=
  let pending := (chunks less (leastChunk xs.length) xs).foldl
    (fun (p : Pending α) chunk => collapse less false p.patience (chunk :: p.runs)) ⟨[], payingSkip⟩
  (collapse less true pending.patience pending.runs).runs.flatten

end CoinSelection.Sort.Adaptive
