/-
# CoinSelection.Text.Blank -- blanks around a text

The blanks are the spaces of every width, the characters that end a line or move on a line or a
page, and the byte order mark.  Core knows four of them; here is the table.
-/

namespace CoinSelection.Text

set_option autoImplicit false

/-- The blanks, as ranges of code points. -/
def blanks : List (Nat × Nat) :=
  [(0x0009, 0x000D), (0x0020, 0x0020), (0x00A0, 0x00A0), (0x1680, 0x1680), (0x2000, 0x200A),
   (0x2028, 0x2029), (0x202F, 0x202F), (0x205F, 0x205F), (0x3000, 0x3000), (0xFEFF, 0xFEFF)]

def isBlank (c : Char) : Bool := blanks.any fun range => range.1 ≤ c.toNat && c.toNat ≤ range.2

/-- A text without the blanks at both ends. -/
def trim (cs : List Char) : List Char := ((cs.dropWhile isBlank).reverse.dropWhile isBlank).reverse

end CoinSelection.Text
