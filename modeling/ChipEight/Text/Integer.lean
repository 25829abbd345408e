/-
Reading a decimal integer.

Blanks may stand around it, a sign in front, and single underscores between
two digits; the digits may be of any script.  A numeral of more than 4300
digits is refused, whatever its value.
-/
import ChipEight.Text.Digit

namespace ChipEight.Text

/-- The digits of a numeral, without the underscores between them. -/
def digits? : List Char → Option (List Nat)
  | [] => none
  | [c] => (digit? c).map ([·])
  | c :: '_' :: rest => do return (← digit? c) :: (← digits? rest)
  | c :: rest => do return (← digit? c) :: (← digits? rest)

/-- The number with the given decimal digits, the most significant first. -/
def ofDigits (ds : List Nat) : Nat := ds.foldl (fun n d => 10 * n + d) 0

/-- The longest numeral that is read. -/
def longestNumeral : Nat := 4300

/-- The value of a numeral without a sign. -/
def natural? (s : List Char) : Option Nat := do
  let ds ← digits? s
  if ds.length ≤ longestNumeral then some (ofDigits ds) else none

/-- The text without the blanks around it. -/
def strip (s : List Char) : List Char :=
  ((s.dropWhile isBlank).reverse.dropWhile isBlank).reverse

/-- The integer that a text denotes, if it denotes one. -/
def integer? (s : String) : Option Int :=
  match strip s.toList with
  | '-' :: rest => (natural? rest).map fun n => -(n : Int)
  | '+' :: rest => (natural? rest).map fun n => (n : Int)
  | rest => (natural? rest).map fun n => (n : Int)

end ChipEight.Text
