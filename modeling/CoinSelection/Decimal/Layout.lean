/-
# CoinSelection.Decimal.Layout -- how a number is written

A number is written with its shortest digits.  What a `Layout` decides is where the digits stand:
positionally, padded with zeros, or with one digit before the point and a power of ten behind.
`Layout.amount` is the layout of every number in a message.
-/
import CoinSelection.Decimal.Shortest

namespace CoinSelection

set_option autoImplicit false

/-- Where the positional form ends and how the special values are spelled. -/
structure Layout where
  /-- The longest whole part that is written out. -/
  wholeDigits : Nat
  /-- The most zeros that may stand between the point and the first digit. -/
  leadingZeros : Nat
  notANumber : String
  infinite : String

namespace Layout

private def zeros (n : Nat) : String := String.ofList (List.replicate n '0')

/-- The power of ten behind a number in scientific form; its sign is always written. -/
private def power (n : Int) : String :=
  if n < 0 then s!"e-{n.natAbs}" else s!"e+{n.natAbs}"

/-- The text of a positive decimal.  `point` counts the digits left of the decimal point; it is
negative or zero when the number is below one. -/
def decimal (l : Layout) (d : Decimal) : String :=
  let digits := Nat.toDigits 10 d.digits
  let point := digits.length + d.exponent
  if digits.length ≤ point ∧ point ≤ l.wholeDigits then
    String.ofList digits ++ zeros (point - digits.length).toNat
  else if 0 < point ∧ point ≤ l.wholeDigits then
    String.ofList (digits.take point.toNat) ++ "." ++ String.ofList (digits.drop point.toNat)
  else if -l.leadingZeros ≤ point ∧ point ≤ 0 then
    "0." ++ zeros (-point).toNat ++ String.ofList digits
  else match digits with
    | first :: rest@(_ :: _) => String.ofList (first :: '.' :: rest) ++ power (point - 1)
    | digits => String.ofList digits ++ power (point - 1)

/-- The text of a number.  A zero has no sign. -/
def number (l : Layout) (x : Float) : String :=
  match x.toModel.unpack with
  | .notANumber => l.notANumber
  | .infinity s => mark s l.infinite
  | .zero _ => "0"
  | .finite s m e _ => mark s (l.decimal (.shortest m e))
where
  mark : Float.Model.UnpackedFloat.Sign → String → String
    | .negative, text => "-" ++ text
    | .positive, text => text

/-- Amounts are written out with up to twenty-one whole digits and up to five zeros after the
point. -/
def amount : Layout where
  wholeDigits := 21
  leadingZeros := 5
  notANumber := "NaN"
  infinite := "Infinity"

end Layout

end CoinSelection
