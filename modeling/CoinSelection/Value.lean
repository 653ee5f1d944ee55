/-
# CoinSelection.Value -- values of a configuration

A configuration is given as a value of unknown shape.  `Value` is what such a value can be:
numbers are binary64, integers of any size are a kind of their own, and a field may be present
without a value (`missing`).  An object keeps its entries in the order in which they were given.

`Value.text?` is how a value is shown when it is refused.
-/
import CoinSelection.Decimal.Layout

namespace CoinSelection

set_option autoImplicit false

inductive Value where
  | missing
  | null
  | bool (b : Bool)
  | number (x : Float)
  | integer (n : Int)
  | string (s : String)
  | list (items : List Value)
  | object (entries : List (String × Value))
  deriving Inhabited

namespace Value

/-- The value of the first entry with a given key. -/
def lookup (key : String) (entries : List (String × Value)) : Option Value :=
  (entries.find? fun entry => entry.1 == key).map (·.2)

/-- The entries of an object; any other value has none. -/
def entries : Value → List (String × Value)
  | object es => es
  | _ => []

def isObject : Value → Bool
  | object _ => true
  | _ => false

/-- A field of a value; a field that is not there has no value. -/
def field (key : String) (v : Value) : Value := (lookup key v.entries).getD missing

/-- The key under which an object keeps a way of its own to be shown. -/
def showingKey : String := "toString"

mutual

/-- The text of a value.  A list is shown by its items, separated by commas; an item without a
value leaves its place empty.  All objects are shown alike; but one that has an entry for how to
show it cannot be shown, since no value is a way to do so. -/
def text? : Value → Option String
  | missing => some "undefined"
  | null => some "null"
  | bool true => some "true"
  | bool false => some "false"
  | number x => some (Layout.amount.number x)
  | integer n => some (toString n)
  | string s => some s
  | list items => (itemTexts? items).map fun texts => ",".intercalate texts
  | object entries => if (lookup showingKey entries).isSome then none else some "[object Object]"

def itemTexts? : List Value → Option (List String)
  | [] => some []
  | missing :: rest | null :: rest => (itemTexts? rest).map ("" :: ·)
  | item :: rest => match item.text?, itemTexts? rest with
      | some text, some texts => some (text :: texts)
      | _, _ => none

end

end Value

end CoinSelection
