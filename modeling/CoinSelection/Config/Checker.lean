/-
# CoinSelection.Config.Checker -- what checks a configuration

A `Checker` says whether a value is a configuration, and what is wrong with one that is not: the
paths of the flaws and their messages, in its own order.  Only the first flaw is reported.

`schema` is the checker in use.  It takes the fields in order; a field is looked at when the section
that holds it is an object.
-/
import CoinSelection.Selector

namespace CoinSelection

set_option autoImplicit false

/-- The strategy that a value names. -/
def Strategy.ofValue? : Value → Option Strategy
  | .string name => ofName? name
  | _ => none

namespace Config

/-! ## Fields of a value -/

namespace Field

/-- The value that a field has in a configuration. -/
def valueIn (f : Field) (v : Value) : Value :=
  match f.section? with
  | some s => (v.field s.key).field f.key
  | none => v.field f.key

/-- Whether there is an object for the field to stand in. -/
def isHeld (f : Field) (v : Value) : Bool :=
  match f.section? with
  | some s => (v.field s.key).isObject
  | none => true

/-- What is wrong with a count: it is a whole number, which is tested first, and not negative. -/
def countFlaw? : Value → Option Flaw
  | .number x => match Whole.int? x with
      | some n => if 0 ≤ n then none else some .negative
      | none => some .notAnInteger
  | _ => some .notAnInteger

/-- What is wrong with a value for the field. -/
def flaw? : Field → Value → Option Flaw
  | strategy, v => if (Strategy.ofValue? v).isSome then none else some .notAStrategy
  | args, v | minPriority, v => if v.isObject then none else some .notAnObject
  | maxInputs, v | minChangeAmount, v | minAvgValueAgePerInput, v => countFlaw? v

/-- The path and the message of what is wrong with the field of a configuration. -/
def report? (f : Field) (v : Value) : Option (String × String) :=
  if f.isHeld v then (f.flaw? (f.valueIn v)).map fun flaw => (f.path, flaw.message) else none

end Field

/-! ## Checkers -/

structure Checker where
  accepts : Value → Bool
  /-- The paths and the messages of what is wrong. -/
  flaws : Value → List (String × String)

/-- The complaint about a value that was not accepted. -/
def Checker.complaint (c : Checker) (v : Value) : Complaint :=
  match c.flaws v with
  | (path, message) :: _ => .config (if path.isEmpty then "/" else path) message
  | [] => .config "/" "unknown error"

def schema : Checker where
  accepts v := (Field.all.filterMap (·.report? v)).isEmpty
  flaws v := Field.all.filterMap (·.report? v)

end Config

end CoinSelection
