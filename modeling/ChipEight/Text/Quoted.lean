/-
Quoted text, for messages that repeat what the user wrote.

A text is put between apostrophes, or between double quotes when it holds an
apostrophe and no double quote.  Inside, the quote in use and the backslash are escaped,
tab, line feed and carriage return have letters, and other unprintable
characters are given by their number in two, four or eight hexadecimal digits:

    'rom'      "it's"      'tab\there'      'nbsp\xa0x'.
-/
import ChipEight.Text.Printable

namespace ChipEight.Text

/-- A backslash, a letter and `n` in at least `width` lower-case hexadecimal digits. -/
def numberEscape (letter : Char) (width n : Nat) : List Char :=
  '\\' :: letter :: (Nat.toDigits 16 n).leftpad width '0'

/-- How `c` is written between quotes `q`. -/
def escape (q c : Char) : List Char :=
  if c = q ∨ c = '\\' then ['\\', c]
  else if c = '\t' then ['\\', 't']
  else if c = '\n' then ['\\', 'n']
  else if c = '\r' then ['\\', 'r']
  else if isPrintable c then [c]
  else if c.toNat < 0x100 then numberEscape 'x' 2 c.toNat
  else if c.toNat < 0x10000 then numberEscape 'u' 4 c.toNat
  else numberEscape 'U' 8 c.toNat

/-- The quote that `s` is put in. -/
def quoteOf (s : List Char) : Char :=
  if '\'' ∈ s ∧ '"' ∉ s then '"' else '\''

def quoted (s : String) : String :=
  let q := quoteOf s.toList
  String.ofList (q :: s.toList.flatMap (escape q) ++ [q])

end ChipEight.Text
