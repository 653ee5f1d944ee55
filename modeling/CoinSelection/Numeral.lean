/-
# CoinSelection.Numeral -- integers written as text

An integer is written in decimal digits, with or without a sign, or in digits of base 2, 8 or 16
behind `0b`, `0o` or `0x`, and then without a sign.  Blanks around it do not count, and a text of
nothing but blanks is zero.
-/
import CoinSelection.Text.Blank

namespace CoinSelection.Numeral

set_option autoImplicit false

/-- The value of a digit, up to fifteen. -/
def digit? (c : Char) : Option Nat :=
  if '0' ≤ c && c ≤ '9' then some (c.toNat - '0'.toNat)
  else if 'a' ≤ c && c ≤ 'f' then some (c.toNat - 'a'.toNat + 10)
  else if 'A' ≤ c && c ≤ 'F' then some (c.toNat - 'A'.toNat + 10)
  else none

/-- The number that digits make behind others, which make `n`. -/
def extend? (base n : Nat) : List Char → Option Nat
  | [] => some n
  | c :: rest => match digit? c with
      | some d => if d < base then extend? base (base * n + d) rest else none
      | none => none

/-- The number that digits make; one digit is the least. -/
def nat? (base : Nat) : List Char → Option Nat
  | [] => none
  | digits => extend? base 0 digits

/-- The integer that decimal digits make, with or without a sign. -/
def signed? : List Char → Option Int
  | '-' :: digits => (nat? 10 digits).map fun n => -(n : Int)
  | '+' :: digits => (nat? 10 digits).map fun n => (n : Int)
  | digits => (nat? 10 digits).map fun n => (n : Int)

/-- The base that a letter behind a zero stands for. -/
def base? (letter : Char) : Option Nat :=
  match letter with
  | 'b' | 'B' => some 2
  | 'o' | 'O' => some 8
  | 'x' | 'X' => some 16
  | _ => none

/-- The integer that a text without blanks around it is. -/
def ofChars? : List Char → Option Int
  | [] => some 0
  | '0' :: letter :: digits => match base? letter with
      | some base => (nat? base digits).map fun n => (n : Int)
      | none => signed? ('0' :: letter :: digits)
  | digits => signed? digits

/-- The integer that a text is, if it is one. -/
def int? (text : String) : Option Int := ofChars? (Text.trim text.toList)

end CoinSelection.Numeral
