/-
# CoinSelection.Config.Field -- the recognised fields of a configuration

A configuration has a strategy and two sections of numbers.  A fault is reported by the path of
the field and by what is wrong with it; fields are looked at in the order of `Field.all`.
-/

namespace CoinSelection.Config

set_option autoImplicit false

inductive Field where
  | strategy
  | args
  | maxInputs
  | minChangeAmount
  | minPriority
  | minAvgValueAgePerInput
  deriving DecidableEq, Repr

namespace Field

/-- A section comes before the fields that it holds. -/
def all : List Field :=
  [strategy, args, maxInputs, minChangeAmount, minPriority, minAvgValueAgePerInput]

/-- The key of the field in the object that holds it. -/
def key : Field → String
  | strategy => "strategy"
  | args => "args"
  | maxInputs => "maxInputs"
  | minChangeAmount => "minChangeAmount"
  | minPriority => "minPriority"
  | minAvgValueAgePerInput => "minAvgValueAgePerInput"

/-- The section that holds the field; the others stand at the top. -/
def section? : Field → Option Field
  | maxInputs | minChangeAmount => some args
  | minAvgValueAgePerInput => some minPriority
  | strategy | args | minPriority => none

def path (f : Field) : String :=
  match f.section? with
  | some s => s!"/{s.key}/{f.key}"
  | none => s!"/{f.key}"

end Field

/-- What can be wrong with a field. -/
inductive Flaw where
  | notAStrategy
  | notAnObject
  | notAnInteger
  | negative
  deriving DecidableEq, Repr

def Flaw.message : Flaw → String
  | notAStrategy => "Expected union value"
  | notAnObject => "Expected object"
  | notAnInteger => "Expected integer"
  | negative => "Expected integer to be greater or equal to 0"

end CoinSelection.Config
