/-
# CoinSelection.Config.Merge -- a configuration laid over another

Laying one object over another replaces the values of common keys, except that where both values
are objects they are laid over each other in turn; an entry that is present without a value
replaces nothing.

The key `__proto__` does not name a field.  Its value, if it is an object, is what an object
*inherits* from: a key that the object does not have itself is looked up there.  What is inherited
is never an entry of the result, but it does take part in the merge: a later entry with an object
for a value is laid over an inherited object of that key.  Objects that are taken over whole keep
such an entry as an ordinary one, and where an object has it already as an ordinary entry, it is
replaced as one.
-/
import CoinSelection.Value

namespace CoinSelection.Config

set_option autoImplicit false

/-- The entries of an object. -/
abbrev Entries := List (String × Value)

def inheritanceKey : String := "__proto__"

/-- An object in the making: its own entries, and those it inherits, nearest first. -/
structure Layer where
  own : Entries
  inherited : Entries

namespace Layer

/-- The value of a key, own or else inherited. -/
def get? (l : Layer) (key : String) : Option Value :=
  Value.lookup key l.own <|> Value.lookup key l.inherited

/-- Replaces the value of an own key, or adds the key behind the others. -/
def put (key : String) (v : Value) : Entries → Entries
  | [] => [(key, v)]
  | entry :: rest => if entry.1 == key then (key, v) :: rest else entry :: put key v rest

def set (l : Layer) (key : String) (v : Value) : Layer := { l with own := put key v l.own }

/-- Whether the key sets what is inherited: it does unless it is an ordinary key here. -/
def isInheritance (l : Layer) (key : String) : Bool :=
  key == inheritanceKey && (Value.lookup key l.own).isNone

/-- Everything that an object shows, own entries first. -/
def visible (l : Layer) : Entries := l.own ++ l.inherited

mutual

/-- An object with these entries, and a value laid over it; a value that is no object has no entries
to lay. -/
def onto (base : Entries) : Value → Layer
  | .object entries => overlay ⟨base, []⟩ entries
  | _ => ⟨base, []⟩

/-- Lays entries over an object, one after the other. -/
def overlay (l : Layer) : Entries → Layer
  | [] => l
  | entry :: rest => overlay (overlayEntry l entry) rest

/-- Lays one entry over an object. -/
def overlayEntry (l : Layer) : String × Value → Layer
  | (_, .missing) => l
  | (key, v) =>
      if l.isInheritance key then { l with inherited := (onto [] v).visible }
      else match l.get? key with
        | some (.object base) => l.set key (if v.isObject then .object (onto base v).own else v)
        | _ => l.set key v

end

end Layer

/-- The entries of one object laid over those of another, the base. -/
def merge (base top : Entries) : Entries := (Layer.overlay ⟨base, []⟩ top).own

end CoinSelection.Config
