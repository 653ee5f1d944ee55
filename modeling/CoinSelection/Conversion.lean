/-
# CoinSelection.Conversion -- what a value of unknown shape is good for

A value can be asked for its text, for the integer that it is, and for its fields.  Each can fail:
a value that has nothing to show, or nothing to read, is `Fault.unusable`; a number that is not an
integer is `Fault.notWhole`; a text that is not one is `Fault.notNumeral`.
-/
import CoinSelection.Fault
import CoinSelection.Numeral

namespace CoinSelection.Value

set_option autoImplicit false

/-- The text of a value. -/
def shown (v : Value) : Except Fault String :=
  match v.text? with
  | some text => .ok text
  | none => .error (.unusable v)

/-- The integer that a value is.  A truth value is one or zero; a list or an object is what its
text is. -/
def toInt (v : Value) : Except Fault Int :=
  match v with
  | integer n => .ok n
  | number x => match Whole.int? x with
      | some n => .ok n
      | none => .error (.notWhole x)
  | bool b => .ok b.toInt
  | missing | null => .error (.unusable v)
  | string _ | list _ | object _ => do
      let text ← v.shown
      match Numeral.int? text with
      | some n => return n
      | none => throw (.notNumeral text)

/-- A field of a value.  What is not there at all has no fields; one that lacks the field has no
value for it. -/
def read (key : String) (v : Value) : Except Fault Value :=
  match v with
  | missing | null => .error (.unusable v)
  | _ => .ok (v.field key)

/-- Refuses a value, which is shown in the complaint. -/
def refuse {α : Type} (complaint : String → Complaint) (got : Value) : Except Fault α := do
  throw (.invalidArgs (complaint (← got.shown)))

end CoinSelection.Value
