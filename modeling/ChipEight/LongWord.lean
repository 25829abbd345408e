/-
Words of 64 bits with a sign.

    least = -2 ^ 63   ≤   n   ≤   greatest = 2 ^ 63 - 1.

Sizes, coordinates and indices are such words.  What is no word is refused as such, before it is
asked what it would be the size, the place or the index of.
-/

namespace ChipEight.LongWord

/-- The number of words. -/
def count : Int := 0x10000000000000000

def greatest : Int := 0x7FFFFFFFFFFFFFFF

def least : Int := -greatest - 1

/-- Whether an integer is a word. -/
def fits (n : Int) : Bool := least ≤ n ∧ n ≤ greatest

theorem fits_of_byte {n : Int} (h : 0 ≤ n ∧ n ≤ 255) : fits n = true := by
  have hn : least ≤ n ∧ n ≤ greatest := by
    unfold least greatest
    omega
  exact decide_eq_true hn

/-- What is said of an integer that is to be a word and is none. -/
def refusal : String := "Python int too large to convert to C long"

/-- What is said of an integer that is to be an index, or a number of things, and is no word. -/
def indexRefusal : String := "cannot fit 'int' into an index-sized integer"

end ChipEight.LongWord
