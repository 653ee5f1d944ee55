/-
# CoinSelection.Fault -- why there is no answer

Each constructor of `Fault` is one cause.  A selection that does not exist is an expected outcome
and carries its target; arguments are refused with a `Complaint`, which says what was found where;
a lookup names the kind of list, the position asked for and the size.  The wording of a complaint
is `Complaint.message`, that of a lookup `Fault.lookupMessage?`.
-/
import CoinSelection.Config.Field
import CoinSelection.Index
import CoinSelection.Value

namespace CoinSelection

set_option autoImplicit false

/-- What is wrong with arguments that were refused.  A value of unknown shape is kept as the text
that shows it. -/
inductive Complaint where
  | maxInputs (got : String)
  | minChangeAmount (got : String)
  | target (got : Float)
  | threshold (got : Int)
  | noOutput (txid : String) (output : Float)
  | outputAmount (txid : String) (output : Float) (got : Float)
  | confirmations (got : Float)
  | config (path : String) (flaw : String)

def Complaint.message : Complaint → String
  | maxInputs got => "maxInputs must be a non-negative integer, got " ++ got
  | minChangeAmount got => "minChangeAmount must be a non-negative integer, got " ++ got
  | target got => "target must be a non-negative integer, got " ++ Layout.amount.number got
  | threshold got => "minAvgValueAgePerInput must be non-negative, got " ++ toString got
  | noOutput txid output => "tx " ++ txid ++ " has no output " ++ Layout.amount.number output
  | outputAmount txid output got =>
      "tx " ++ txid ++ " output " ++ Layout.amount.number output ++ " has invalid amount "
        ++ Layout.amount.number got
  | confirmations got => "invalid confirmation count " ++ Layout.amount.number got
  | config path flaw => "coinset: invalid config at " ++ path ++ ": " ++ flaw

/-- The two kinds of list that a position can lie outside of. -/
inductive Shelf where
  | collection
  | window
  deriving DecidableEq, Repr

/-- What an entry of the list is called. -/
def Shelf.entryName : Shelf → String
  | collection => "coin"
  | window => "window"

inductive Fault where
  /-- No set of coins was found for the target. -/
  | noSelection (target : Float)
  /-- A coin was taken from a subset that has none. -/
  | emptySubset (operation : String)
  | invalidArgs (complaint : Complaint)
  | outOfRange (shelf : Shelf) (index : Index) (size : Nat)
  /-- An integer was needed and the number is not one. -/
  | notWhole (got : Float)
  /-- An integer was needed and the text is not one. -/
  | notNumeral (got : String)
  /-- The value is of no use here: it cannot be shown, has nothing to read or names nothing. -/
  | unusable (got : Value)

/-- The wording of a failed lookup. -/
def Fault.lookupMessage? : Fault → Option String
  | outOfRange shelf index size =>
      some s!"{shelf.entryName} index {index.text} out of range (len {size})"
  | noSelection _ | emptySubset _ | invalidArgs _ | notWhole _ | notNumeral _ | unusable _ => none

end CoinSelection
