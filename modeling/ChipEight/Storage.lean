/-
Room for arrays.

An array has a size in every dimension, and elements that take a number of bytes each:

    bytes = size 1 * ... * size n * bytes of an element.

The bytes have to be countable in words of 64 bits, where sizes of zero do not count, and there has
to be room for them.  Where there is none, the amount is told to three digits and in the greatest
unit of which it makes a whole one:

    amountText 140737488355330000 = "125. PiB".

How much room there is depends on the computer and on what else it holds, and cannot be known here.
`room` stands in for it: 64 GiB is more than pictures and waves of usable settings take, and less
than the 128 TiB that an address reaches, beyond which every computer refuses.  In between, one
computer may make an array that another refuses.  What is proved for all arrays uses no more of the
value than that it is at most 2 ^ 49 (`room_le`), so that binary numbers are exact up to there.
-/
import ChipEight.LongWord
import ChipEight.Rounding

namespace ChipEight

/-- What an array consists of. -/
inductive Element
  | pixel
  | sample
  /-- the number of a sample -/
  | position
  deriving DecidableEq, Repr

namespace Element

def bytes : Element → Nat
  | pixel => 1
  | sample => 2
  | position => 8

def name : Element → String
  | pixel => "uint8"
  | sample => "int16"
  | position => "int64"

end Element

/-- The sizes of an array in all dimensions, and its elements. -/
structure Shape where
  sizes : List Nat
  element : Element
  deriving DecidableEq, Repr

/-- Why an array cannot be made. -/
inductive StorageFault
  /-- it has more bytes than can be counted -/
  | uncountable
  /-- there is no room for it -/
  | noRoom (shape : Shape)
  deriving DecidableEq, Repr

/-! ### Amounts -/

/-- The units of an amount of bytes, each 1024 times the one before. -/
def unitNames : List String := ["bytes", "KiB", "MiB", "GiB", "TiB", "PiB", "EiB"]

/-- The decimal numeral of `n / 10 ^ places`; the point is always written. -/
def pointed (places n : Nat) : String :=
  let digits := (Nat.toDigits 10 n).leftpad (places + 1) '0'
  let whole := digits.length - places
  String.ofList (digits.take whole ++ '.' :: digits.drop whole)

/-- A number between one and 1024, to three digits or to as many as stand before the point. -/
def threeDigits (b : BinaryNumber) : String :=
  let (n, d) := b.fraction
  if nearestQuotient (100 * n) d < 1000 then pointed 2 (nearestQuotient (100 * n) d)
  else if nearestQuotient (10 * n) d < 1000 then pointed 1 (nearestQuotient (10 * n) d)
  else pointed 0 (nearestQuotient n d)

/-- An amount of bytes.  What would be rounded to 1024 of a unit is one of the next. -/
def amountText (bytes : Nat) : String :=
  let unit := bytes.log2 / 10
  let amount := BinaryNumber.ofQuotient bytes (pow2 (10 * unit))
  let (unit, amount) :=
    if amount.round = 1024 then (unit + 1, { amount with exponent := amount.exponent - 10 })
    else (unit, amount)
  threeDigits amount ++ " " ++ unitNames.getD unit ""

/-! ### Shapes -/

/-- The number of bytes from which on there is no room. -/
def room : Nat := 0x1000000000

/-- There is room for less than 2 ^ 49 bytes. -/
theorem room_le : room ≤ 0x2000000000000 := by decide

namespace Shape

/-- The number of bytes of an array. -/
def bytes (s : Shape) : Nat := s.sizes.foldl (· * ·) s.element.bytes

/-- The number of bytes of an array without its sizes of zero. -/
def extent (s : Shape) : Nat := (s.sizes.filter (· ≠ 0)).foldl (· * ·) s.element.bytes

def text (s : Shape) : String :=
  match s.sizes with
  | [n] => "(" ++ toString n ++ ",)"
  | sizes => "(" ++ ", ".intercalate (sizes.map fun n : Nat => toString n) ++ ")"

/-- Why an array of this shape cannot be made, if so. -/
def fault? (s : Shape) : Option StorageFault :=
  if LongWord.greatest < s.extent then some .uncountable
  else if room ≤ s.bytes then some (.noRoom s)
  else none

end Shape

def StorageFault.message : StorageFault → String
  | uncountable =>
    "array is too big; `arr.size * arr.dtype.itemsize` is larger than the maximum possible size."
  | noRoom shape =>
    "Unable to allocate " ++ amountText shape.bytes ++ " for an array with shape " ++ shape.text
      ++ " and data type " ++ shape.element.name

end ChipEight
