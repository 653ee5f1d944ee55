/-
# CoinSelection.InPlace.Sort -- sorting an object in place

`Source.sortSwaps` says which swaps put a source in order.  Here an object of a session is sorted
one step at a time: a plan is carried out by comparisons, each of which looks up two coins through
the objects as they are then, the swaps are found with two tables, and a swap looks up two entries
and writes them one after the other.  Any of the lookups can fail, and what has been written by then
stays written.

`selectBy` is a selection that begins with such a sort.
-/
import CoinSelection.InPlace
import CoinSelection.Sort.Plan
import CoinSelection.Sort.Tables

namespace CoinSelection

set_option autoImplicit false

/-! ## Exchanges -/

namespace Shelf

variable {α : Type}

/-- A step that works on a list in place. -/
abbrev Method (α β : Type) := ExceptT Fault (StateM (Array α)) β

/-- The entry that the list has at a position now. -/
def lookUp (shelf : Shelf) (i : Index) : Method α α := do
  liftM (shelf.entry (← get) i)

/-- Writes an entry; a position that is not there has none. -/
def write (i : Index) (a : α) : Method α Unit :=
  modify fun items => match i.toNat? with
    | some n => items.setIfInBounds n a
    | none => items

/-- Exchanges two entries. -/
def exchange (shelf : Shelf) (i j : Index) : Method α Unit := do
  let a ← shelf.lookUp i
  let b ← shelf.lookUp j
  write i b
  write j a

end Shelf

/-! ## Comparisons -/

/-- How two coins of a source compare.  Whether the first is less is asked first, and the other way
round if it is not. -/
def Source.compare (o : Order) (s : Source) (i j : Nat) : Except Fault Ordering := do
  if ← s.less o (.nat i) (.nat j) then return .lt
  if ← s.less o (.nat j) (.nat i) then return .gt
  return .eq

namespace InPlace

open MinPriority.Checked (Step Limits firstReaching)

/-! ## Objects -/

/-- Exchanges two entries of an object. -/
def exchange (ref : Nat) (i j : Index) : Action Unit := ExceptT.mk fun s =>
  match s.objects[ref]? with
  | some (.collection coins) =>
      let (answer, after) := (Shelf.collection.exchange i j).run coins
      some (Step.of answer, s.set ref (.collection after))
  | some (.window below positions) =>
      let (answer, after) := (Shelf.window.exchange i j).run positions
      some (Step.of answer, s.set ref (.window below after))
  | some (.subset ..) | none => none

/-- Compares two coins that an object shows now. -/
def compare (o : Order) (ref i j : Nat) : Action Ordering := do
  Step.of ((← look ref).compare o i j)

/-- Sorts an object: the plan is carried out, and then the exchanges that it asks for. -/
def sortBy (plan : Sort.Plan) (o : Order) (ref : Nat) : Action Unit := do
  let order ← plan.run (compare o ref)
  ((Sort.Tables.start order.length).swaps 0 order).forM fun w => exchange ref (.nat w.1) (.nat w.2)

/-! ## Selections -/

/-- What a policy does with an object that has been put in order. -/
def choose (p : Policy) (limits : Limits) (target : Float) (ref : Nat) : Action (List Index) := do
  let s ← look ref
  match p with
  | .minPriority threshold =>
      let reaching ← firstReaching threshold s (List.range s.size)
      reaching.elim (throw (.fault (.noSelection target))) fun cutoff =>
        windows (within s.size) limits threshold target ref cutoff
          (List.range' 1 (s.size - cutoff))
  | .minIndex | .minNumber | .maxValueAge =>
      return (← Step.of (p.choosePositions limits.budget (limits.goal target) s.slots)).map .nat

/-- A selection that sorts its object by a plan. -/
def selectBy (plan : Sort.Plan) (o : Order) (p : Policy) (limits : Limits) (target : Float)
    (ref : Nat) : Action (List Index) := do
  sortBy plan o ref
  choose p limits target ref

/-- A command as an action on the objects of a session. -/
def command (c : Command) : Action Answer := ExceptT.mk fun s =>
  (s.step c).map fun outcome => (Step.of outcome.1, outcome.2)

end InPlace

end CoinSelection
