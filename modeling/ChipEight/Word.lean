/-
The fields of an instruction word.

A word is written as four hexadecimal digits.  Its fields are runs of these
digits: the leading digit names the group of the instruction, the others are
register numbers, byte constants and addresses.  The fields are defined for
every integer, read as an endless two's complement numeral; words proper lie
between `0` and `0xFFFF`.
-/

namespace ChipEight.Word

/-- The leading digit, `w` of `wxyz`. -/
def group (w : Int) : Int := w / 0x1000 % 0x10

theorem group_bounds (w : Int) : 0 ≤ group w ∧ group w < 16 := by
  unfold group
  omega

/-- The second digit: a register number. -/
def x (w : Int) : Int := w / 0x100 % 0x10

/-- The third digit: a register number. -/
def y (w : Int) : Int := w / 0x10 % 0x10

/-- The last digit: a sprite height or a selector. -/
def digit (w : Int) : Int := w % 0x10

theorem digit_lt (w : Int) : (digit w).toNat < 16 := by
  unfold digit
  omega

/-- The last two digits: a byte constant or a selector. -/
def byte (w : Int) : Int := w % 0x100

/-- The last three digits: an address. -/
def address (w : Int) : Int := w % 0x1000

/-- Bitwise "or" of two integers in endless two's complement. -/
def union : Int → Int → Int
  | .ofNat m, .ofNat n => .ofNat (m ||| n)
  | .ofNat m, .negSucc n => .negSucc (n ^^^ (n &&& m))
  | .negSucc m, .ofNat n => .negSucc (m ^^^ (m &&& n))
  | .negSucc m, .negSucc n => .negSucc (m &&& n)

/-- The word made of two bytes, the more significant one first. -/
def join (high low : Int) : Int := union (0x100 * high) low

theorem join_eq (high : Nat) {low : Nat} (h : low < 0x100) :
    join high low = 0x100 * high + low := by
  have e : 0x100 * high + low = 0x100 * high ||| low := Nat.two_pow_add_eq_or_of_lt (i := 8) h high
  calc join high low = ((0x100 * high ||| low : Nat) : Int) := rfl
    _ = ((0x100 * high + low : Nat) : Int) := by rw [e]
    _ = 0x100 * high + low := by omega

theorem join_bounds (high low : UInt8) :
    0 ≤ join high.toNat low.toNat ∧ join high.toNat low.toNat ≤ 0xFFFF := by
  have hhigh := high.toNat_lt
  have hlow := low.toNat_lt
  rw [join_eq _ hlow]
  omega

end ChipEight.Word
