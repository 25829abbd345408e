/-
Quotients rounded to whole numbers and to binary numbers.

A binary number is a mantissa of 53 binary digits and an exponent,

    mantissa * 2 ^ exponent.

Rounding takes the nearest candidate, and of two that are equally near the even one.  A
quotient that is made a binary number first and a whole number then is rounded twice, so a
quotient hardly above a half may be taken for the half itself:

    (5 * 10 ^ 20 + 1) / (2 * 10 ^ 20)   →   2.5   →   2.
-/

namespace ChipEight

/-- The whole number nearest to `n / d`; of two that are equally near, the even one.  The
divisor must not be zero. -/
def nearestQuotient (n d : Nat) : Nat :=
  let q := n / d
  let r := n % d
  if 2 * r < d then q
  else if d < 2 * r then q + 1
  else if q % 2 = 0 then q
  else q + 1

def pow2 (k : Nat) : Nat := Nat.pow 2 k

/-- The binary number `mantissa * 2 ^ exponent`. -/
structure BinaryNumber where
  mantissa : Nat
  exponent : Int
  deriving DecidableEq, Repr

namespace BinaryNumber

/-- The exponent with which `n / d` has a mantissa of 53 digits. -/
def exponentOf (n d : Nat) : Int :=
  let e : Int := n.log2 - d.log2 - 52
  if n * pow2 (-e).toNat < pow2 52 * (d * pow2 e.toNat) then e - 1 else e

/-- The binary number nearest to `n / d`. -/
def ofQuotient (n d : Nat) : BinaryNumber :=
  let e := exponentOf n d
  ⟨nearestQuotient (n * pow2 (-e).toNat) (d * pow2 e.toNat), e⟩

/-- The numerator and the denominator of a binary number. -/
def fraction (b : BinaryNumber) : Nat × Nat :=
  (b.mantissa * pow2 b.exponent.toNat, pow2 (-b.exponent).toNat)

/-- The whole number nearest to a binary number. -/
def round (b : BinaryNumber) : Nat := nearestQuotient b.fraction.1 b.fraction.2

/-- Whether a binary number has too great an exponent to be written down. -/
def overflows (b : BinaryNumber) : Bool := pow2 1024 ≤ b.fraction.1

end BinaryNumber

end ChipEight
