/-
# CoinSelection.Failure -- failures as they are reported

A failure of the library is reported by name, under a code and with a message; one for want of a
selection also carries the target.  `Fault.failure?` is the report of a fault that belongs to the
library; lookups and conversions do not.

A report can also be made by hand, out of values of any shape: a code and a message of one's own,
a target, an operation, a complaint.  What is shown in the message is shown like any other value.
-/
import CoinSelection.Conversion

namespace CoinSelection

set_option autoImplicit false

inductive Failure where
  /-- Any failure, under a code of its own. -/
  | general (code : Value) (message : String)
  /-- No set of coins was found for the target. -/
  | noSelection (target : Value) (message : String)
  /-- A coin was taken from a subset that has none. -/
  | emptySubset (operation : String)
  | invalidArgs (message : String)

namespace Failure

def name : Failure → String
  | general .. => "CoinsetError"
  | noSelection .. => "NoSelectionAvailableError"
  | emptySubset _ => "EmptySubsetError"
  | invalidArgs _ => "InvalidSelectionArgsError"

def code : Failure → Value
  | general code _ => code
  | noSelection .. => .string "NO_SELECTION_AVAILABLE"
  | emptySubset _ => .string "EMPTY_SUBSET"
  | invalidArgs _ => .string "INVALID_SELECTION_ARGS"

def message : Failure → String
  | general _ text => text
  | noSelection _ text => text
  | emptySubset operation => "cannot " ++ operation ++ "() from an empty subset"
  | invalidArgs text => text

/-- The name and the message; without a message, the name. -/
def text (f : Failure) : String :=
  if f.message.isEmpty then f.name else f.name ++ ": " ++ f.message

/-- The report for a target that is shown as a text. -/
def forTarget (target : Value) (shown : String) : Failure :=
  noSelection target ("no coin selection possible for target " ++ shown)

/-- The text of a value that can be left out. -/
def optionalText : Value → Except Fault String
  | .missing => .ok ""
  | v => v.shown

def ofCode (code message : Value) : Except Fault Failure := do
  return general code (← optionalText message)

/-- A target that is left out is not mentioned. -/
def ofTarget : Value → Except Fault Failure
  | .missing => .ok (noSelection .missing "no coin selection possible")
  | target => do return forTarget target (← target.shown)

def ofOperation (operation : Value) : Except Fault Failure := do
  return emptySubset (← operation.shown)

def ofComplaint (complaint : Value) : Except Fault Failure := do
  return invalidArgs (← optionalText complaint)

end Failure

/-- The report of a fault, if it belongs to the library. -/
def Fault.failure? : Fault → Option Failure
  | noSelection target => some (.forTarget (.number target) (Layout.amount.number target))
  | emptySubset operation => some (.emptySubset operation)
  | invalidArgs complaint => some (.invalidArgs complaint.message)
  | outOfRange .. | notWhole _ | notNumeral _ | unusable _ => none

end CoinSelection
