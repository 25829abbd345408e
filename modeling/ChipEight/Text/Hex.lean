/-
Hexadecimal numerals.

Words, addresses and bytes are printed in upper-case hexadecimal, filled up
with zeros on the left to a least width.  Any integer can be printed: a minus
sign stands in front of the filling and counts in the width,

    hex 4 10 = "000A"      hex 4 (-1) = "-001"      hex 2 (-20) = "-14".
-/

namespace ChipEight

/-- The upper-case hexadecimal digits of `n`, most significant first. -/
def hexDigits (n : Nat) : List Char :=
  (Nat.toDigits 16 n).map Char.toUpper

/-- The characters of `n` in hexadecimal, at least `width` of them. -/
def hexChars (width : Nat) (n : Int) : List Char :=
  if n < 0 then '-' :: (hexDigits n.natAbs).leftpad (width - 1) '0'
  else (hexDigits n.natAbs).leftpad width '0'

/-- The hexadecimal text of `n`, at least `width` characters long. -/
def hex (width : Nat) (n : Int) : String :=
  String.ofList (hexChars width n)

end ChipEight
