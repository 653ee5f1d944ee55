/-
# CoinSelection.Config -- configurations

A configuration names a strategy, the arguments that all policies share, and the threshold of the
`min-priority` policy.  What is given is laid over `defaults`; the result is checked, and the first
flaw is reported.  Fields that are not recognised are kept.

`Config.parse` accepts or refuses; `Settings.selector` makes the selector, and checks what it is
given once more, because settings can come from elsewhere (`Settings.ofValue`).
-/
import CoinSelection.Config.Checker
import CoinSelection.Config.Merge

namespace CoinSelection

set_option autoImplicit false

/-- A strategy and the two sections that it takes numbers from. -/
structure Settings where
  strategy : Strategy
  args : Value
  minPriority : Value

namespace Settings

/-- The settings in a value that was not checked.  It must name a strategy. -/
def ofValue (v : Value) : Except Fault Settings := do
  let named ← v.read Config.Field.strategy.key
  match Strategy.ofValue? named with
  | some strategy =>
      return ⟨strategy, v.field Config.Field.args.key, v.field Config.Field.minPriority.key⟩
  | none => throw (.unusable named)

/-- Makes the selector that the settings describe.  For `min-priority` the threshold is read before
the arguments are looked at, and it must not be negative after that. -/
def selector (s : Settings) : Except Fault Selector :=
  match s.strategy with
  | .minIndex => do return ⟨.minIndex, ← Args.ofValue s.args⟩
  | .minNumber => do return ⟨.minNumber, ← Args.ofValue s.args⟩
  | .maxValueAge => do return ⟨.maxValueAge, ← Args.ofValue s.args⟩
  | .minPriority => do
      let threshold ← (← s.minPriority.read Config.Field.minAvgValueAgePerInput.key).toInt
      Selector.minPriority? (← Args.ofValue s.args) threshold

end Settings

/-- A configuration that was accepted: its settings and all its entries. -/
structure Config where
  settings : Settings
  entries : Config.Entries

namespace Config

def defaults : Entries :=
  [(Field.strategy.key, .string Strategy.minNumber.name),
   (Field.args.key, .object [(Field.maxInputs.key, .number 20),
     (Field.minChangeAmount.key, .number 0)]),
   (Field.minPriority.key, .object [(Field.minAvgValueAgePerInput.key, .number 0)])]

/-- Completes a value with the defaults and has it checked; a value that is not an object gives none
of the fields. -/
def parseWith (checker : Checker) (given : Value) : Except Fault Config :=
  let entries := merge defaults given.entries
  if checker.accepts (.object entries) then do
    return ⟨← Settings.ofValue (.object entries), entries⟩
  else .error (.invalidArgs (checker.complaint (.object entries)))

def parse (given : Value) : Except Fault Config := parseWith schema given

end Config

end CoinSelection
