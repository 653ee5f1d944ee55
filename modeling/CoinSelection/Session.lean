/-
# CoinSelection.Session -- collections, windows and subsets that share coins

A session holds objects: collections, windows over them or over other windows, and subsets of
either. A window or subset refers to its source by number and by position, so what it shows
follows the order of its source; an object can only refer to one that was there before it.

`Session.step` carries out one command.  A command that fails changes nothing that can be seen,
except that a selection which finds nothing leaves the source in the order it was put in.  Each
command changes at most the object that it is about, or adds one.  A subset is left as its method
leaves it (`Subset.Method`), whether that fails or not.
-/
import CoinSelection.Policy
import CoinSelection.Subset.Method

namespace CoinSelection

set_option autoImplicit false

inductive Object where
  | collection (coins : Array Coin)
  | window (source : Nat) (positions : Array Index)
  | subset (source : Nat) (contents : Subset)

/-- The objects of a session, numbered in the order in which they were made. -/
structure Session where
  objects : Array Object

/-- What can be asked of a session; `on` is the number of an object. -/
inductive Command where
  | window (source : Nat) (positions : List Index)
  | range (source : Nat) (start stop : Float)
  | subset (source : Nat) (indexes : List Index)
  | size (on : Nat)
  | coin (on : Nat) (i : Index)
  | coins (on : Nat)
  | sourceIndex (on : Nat) (i : Index)
  | less (on : Nat) (o : Order) (i j : Index)
  | swap (on : Nat) (i j : Index)
  | sort (on : Nat) (o : Order)
  | select (on : Nat) (p : Policy) (args : Value) (target : Float)
  | pushBack (on : Nat) (i : Index)
  | popBack (on : Nat)
  | popFront (on : Nat)
  | indexes (on : Nat)

inductive Answer where
  | done
  | count (n : Nat)
  | truth (b : Bool)
  | coin (c : Coin)
  | coins (cs : List Coin)
  | index (i : Index)
  | indexes (is : List Index)
  | swaps (pairs : List (Nat × Nat))

/-- What can be asked of a subset. -/
inductive Subset.Operation where
  | size
  | pushBack (i : Index)
  | popBack
  | popFront
  | indexes
  | coins

/-- Asks a subset of coins of a source. -/
def Subset.Operation.perform (source : Source) : Subset.Operation → Subset.Method Answer
  | size => return .count (← Subset.Method.size)
  | pushBack i => do
      Subset.Method.pushBack source i
      return .done
  | popBack => return .coin (← Subset.Method.popBack source)
  | popFront => return .coin (← Subset.Method.popFront source)
  | indexes => return .indexes (← Subset.Method.indexes)
  | coins => return .coins (← Subset.Method.coins source)

namespace Session

def ofCoins (coins : List Coin) : Session := ⟨#[.collection coins.toArray]⟩

/-- The source that a number stands for. -/
def source? (s : Session) (ref : Nat) : Option Source :=
  match s.objects[ref]? with
  | some (.collection coins) => some (.collection coins)
  | some (.window below positions) =>
      if below < ref then (s.source? below).map fun source => .window source positions else none
  | some (.subset ..) | none => none
termination_by ref

/-- The subset that a number stands for, and its source. -/
def subset? (s : Session) (ref : Nat) : Option (Nat × Source × Subset) :=
  match s.objects[ref]? with
  | some (.subset source contents) => (s.source? source).map fun below => (source, below, contents)
  | _ => none

def push (s : Session) (o : Object) : Session := ⟨s.objects.push o⟩

def set (s : Session) (ref : Nat) (o : Object) : Session := ⟨s.objects.setIfInBounds ref o⟩

/-- An object with its positions rearranged as those of a source are. -/
def reorder (s : Session) (ref : Nat) (source : Source) : Session :=
  match s.objects[ref]?, source with
  | some (.collection _), .collection coins => s.set ref (.collection coins)
  | some (.window below _), .window _ positions => s.set ref (.window below positions)
  | _, _ => s

/-- An answer that leaves the session as it is. -/
def unchanged (s : Session) (answer : Except Fault Answer) : Except Fault Answer × Session :=
  (answer, s)

/-- An answer that takes a new state of an object, if there is one. -/
def changed (s : Session) (outcome : Except Fault (Answer × Session)) :
    Except Fault Answer × Session :=
  match outcome with
  | .ok (answer, next) => (.ok answer, next)
  | .error fault => (.error fault, s)

/-- Asks the subset that a number stands for. -/
def perform (s : Session) (on : Nat) (op : Subset.Operation) :
    Option (Except Fault Answer × Session) := do
  let (ref, source, contents) ← s.subset? on
  let (answer, after) := (op.perform source).run contents
  return (answer, s.set on (.subset ref after))

/-- Carries out a command; there is no answer if the object does not take it. -/
def step (s : Session) : Command → Option (Except Fault Answer × Session)
  | .window source positions => do
      discard (s.source? source)
      return (.ok .done, s.push (.window source positions.toArray))
  | .range source start stop => do
      discard (s.source? source)
      return (.ok .done, s.push (.window source (Index.interval start stop).toArray))
  | .subset ref indexes => do
      let source ← s.source? ref
      return s.changed do
        return (.done, s.push (.subset ref (← Subset.ofIndexes source indexes)))
  | .size on =>
      match s.objects[on]? with
      | some (.collection coins) => some (s.unchanged (.ok (.count coins.size)))
      | some (.window _ positions) => some (s.unchanged (.ok (.count positions.size)))
      | some (.subset ..) => s.perform on .size
      | none => none
  | .coin on i => do
      let source ← s.source? on
      return s.unchanged ((source.coin i).map .coin)
  | .coins on =>
      match s.objects[on]? with
      | some (.collection coins) => some (s.unchanged (.ok (.coins coins.toList)))
      | some (.subset ..) => s.perform on .coins
      | _ => none
  | .sourceIndex on i => do
      let source ← s.source? on
      return s.unchanged ((source.sourceIndex i).map .index)
  | .less on o i j => do
      let source ← s.source? on
      return s.unchanged ((source.less o i j).map .truth)
  | .swap on i j => do
      let source ← s.source? on
      return s.changed do
        return (.done, s.reorder on (← source.swap i j))
  | .sort on o => do
      let source ← s.source? on
      return s.changed do
        let swaps ← source.sortSwaps o
        return (.swaps swaps, s.reorder on (source.applySwaps swaps))
  | .select on p given target => do
      let source ← s.source? on
      return match Args.ofValue given with
        | .error fault => s.unchanged (.error fault)
        | .ok args =>
            let (chosen, sorted) := p.run args target source
            (chosen.map fun positions => .indexes (positions.map .nat), s.reorder on sorted)
  | .pushBack on i => s.perform on (.pushBack i)
  | .popBack on => s.perform on .popBack
  | .popFront on => s.perform on .popFront
  | .indexes on => s.perform on .indexes

end Session

end CoinSelection
