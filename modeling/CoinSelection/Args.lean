/-
# CoinSelection.Args -- the arguments that all policies share

A budget of inputs and the least acceptable change, both whole numbers that are not
negative.  They are kept as the numbers that were given, and cannot be made of anything else.
-/
import CoinSelection.Conversion

namespace CoinSelection

set_option autoImplicit false

structure Args where
  maxInputs : Float
  minChangeAmount : Float
  maxInputs_whole : (Whole.nat? maxInputs).isSome
  minChangeAmount_whole : (Whole.nat? minChangeAmount).isSome

namespace Args

/-- A value that is a whole number and not negative. -/
def count? : Value → Option { x : Float // (Whole.nat? x).isSome }
  | .number x => if h : (Whole.nat? x).isSome then some ⟨x, h⟩ else none
  | _ => none

/-- Makes arguments of two values; the budget is looked at first. -/
def of? (maxInputs minChangeAmount : Value) : Except Fault Args :=
  match count? maxInputs with
  | none => maxInputs.refuse .maxInputs
  | some m => match count? minChangeAmount with
      | none => minChangeAmount.refuse .minChangeAmount
      | some c => .ok ⟨m, c, m.2, c.2⟩

/-- Makes arguments of a value that has both as fields. -/
def ofValue (v : Value) : Except Fault Args := do
  of? (← v.read Config.Field.maxInputs.key) (← v.read Config.Field.minChangeAmount.key)

/-- The most coins that a selection may have. -/
def budget (a : Args) : Nat := (Whole.nat? a.maxInputs).get a.maxInputs_whole

end Args

end CoinSelection
