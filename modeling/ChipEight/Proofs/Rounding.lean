/-
Rounding once and rounding twice.

A whole number is nearest to a quotient if it is at most a half away from it, and even if it is
just a half away.  There is exactly one, and `nearestQuotient` finds it.

A quotient that is made a binary number first is rounded twice,

    n / d   →   m / 2 ^ k   →   q,

and `q` need not be the nearest to `n / d`.  It is if `d < 2 ^ k` (`Nearest.twice`): the first
rounding moves the quotient by half a unit of `2 ^ k` at most, and a quotient with so small a
denominator is either a half itself or farther than that from one.  For a numerator below `2 ^ 52`
the mantissa has so many digits behind the point that `k` is large enough, whatever the denominator
is.  Main result: `BinaryNumber.round_nearest`.
-/
import ChipEight.Rounding
import Mathlib.Algebra.Group.Nat.Defs

namespace ChipEight

variable {n d k m q q' : Nat}

/-! ### The nearest whole number -/

/-- A whole number is nearest to `n / d`, and even if another one is as near. -/
structure Nearest (n d q : Nat) : Prop where
  near : 2 * ((n : Int) - d * q).natAbs ≤ d
  even : 2 * ((n : Int) - d * q).natAbs = d → q % 2 = 0

/-- The quotient is at most a half greater. -/
theorem Nearest.above (h : Nearest n d q) : 2 * n ≤ 2 * (d * q) + d := by
  have hnear := h.near
  rw [← Int.natCast_mul] at hnear
  omega

/-- So it is at most one greater. -/
theorem Nearest.le (h : Nearest n d q) : n ≤ d * (q + 1) := by
  have habove := h.above
  rw [Nat.mul_succ]
  omega

/-- The quotient is at most a half smaller. -/
theorem Nearest.below (h : Nearest n d q) : 2 * (d * q) ≤ 2 * n + d := by
  have hnear := h.near
  rw [← Int.natCast_mul] at hnear
  omega

theorem nearest_nearestQuotient (hd : 0 < d) : Nearest n d (nearestQuotient n d) := by
  have hn : n = d * (n / d) + n % d := (Nat.div_add_mod n d).symm
  have hr : n % d < d := Nat.mod_lt n hd
  have hdown : (n : Int) - d * (n / d : Nat) = (n % d : Nat) := by omega
  have hup : (n : Int) - d * (n / d + 1 : Nat) = (n % d : Nat) - d := by
    rw [Int.natCast_succ, Int.mul_add]
    omega
  unfold nearestQuotient
  dsimp only
  split
  · exact ⟨by omega, by omega⟩
  · split
    · exact ⟨by omega, by omega⟩
    · split
      · exact ⟨by omega, by omega⟩
      · exact ⟨by omega, by omega⟩

theorem Nearest.not_lt (hd : 0 < d) (h : Nearest n d q) (h' : Nearest n d q') : ¬ q < q' := by
  intro hlt
  have hstep : d * q + d ≤ d * q' := Nat.mul_le_mul_left d hlt
  have habove := h.above
  have hbelow := h'.below
  -- there is just room for the two, so they are neighbours and both a half away
  have hnext : d * q' = d * (q + 1) := by
    rw [Nat.mul_succ]
    omega
  obtain rfl : q' = q + 1 := Nat.eq_of_mul_eq_mul_left hd hnext
  have heven : q % 2 = 0 := h.even (by
    rw [← Int.natCast_mul]
    omega)
  have heven' : (q + 1) % 2 = 0 := h'.even (by
    rw [← Int.natCast_mul]
    omega)
  omega

/-- **There is only one.** -/
theorem Nearest.unique (hd : 0 < d) (h : Nearest n d q) (h' : Nearest n d q') : q = q' :=
  Nat.le_antisymm (Nat.le_of_not_lt (h'.not_lt hd h)) (Nat.le_of_not_lt (h.not_lt hd h'))

/-- What is nearest to a whole number is that number. -/
theorem nearestQuotient_one (n : Nat) : nearestQuotient n 1 = n := by
  have h := nearest_nearestQuotient (n := n) Nat.one_pos
  have habove := h.above
  have hbelow := h.below
  omega

/-- **Rounding twice is rounding once** if the first rounding is fine enough for the
denominator. -/
theorem Nearest.twice (hd : 0 < d) (h : Nearest (n * k) d m) (h' : Nearest m k q) (hk : d < k)
    (heven : k % 2 = 0) : Nearest n d q := by
  -- the way from `d * q` to `n`, and the ways of the two roundings
  generalize hA : ((n : Int) - d * q).natAbs = A
  generalize hB : (((n * k : Nat) : Int) - d * m).natAbs = B
  generalize hC : ((m : Int) - k * q).natAbs = C
  have hways : A * k ≤ B + d * C := by
    have hsum : ((n : Int) - d * q) * k = ((n * k : Nat) - d * m) + d * (m - k * q) := by
      rw [Int.natCast_mul]
      grind
    calc A * k = (((n : Int) - d * q) * k).natAbs := by rw [Int.natAbs_mul, hA, Int.natAbs_natCast]
      _ = (((n * k : Nat) : Int) - d * m + d * (m - k * q)).natAbs := by rw [hsum]
      _ ≤ B + ((d : Int) * (m - k * q)).natAbs := hB ▸ Int.natAbs_add_le ..
      _ = B + d * C := by rw [Int.natAbs_mul, hC, Int.natAbs_natCast]
  have hfirst : 2 * B ≤ d := hB ▸ h.near
  have hsecond : 2 * C ≤ k := hC ▸ h'.near
  refine ⟨?_, ?_⟩
  · rw [hA]
    apply Nat.le_of_not_lt
    intro hfar
    have hlong : (d + 1) * k ≤ 2 * A * k := Nat.mul_le_mul_right k hfar
    have hshort : d * (2 * C) ≤ d * k := Nat.mul_le_mul_left d hsecond
    grind
  · rw [hA]
    intro htie
    have htie' : d * k ≤ d * (1 + 2 * C) := by
      subst htie
      grind
    have hC' : k ≤ 1 + 2 * C := Nat.le_of_mul_le_mul_left htie' hd
    -- `k` is even, so the second rounding was a tie as well
    exact h'.even (by omega)

/-- However coarse the first rounding is, the quotient is at most one greater. -/
theorem Nearest.twice_le (h : Nearest (n * k) d m) (h' : Nearest m k q) (hk : 0 < k) :
    n ≤ d * (q + 1) := by
  have hfirst := h.above
  have hsecond := h'.above
  have hm : 2 * m + 1 ≤ 2 * (k * (q + 1)) := by
    rw [Nat.mul_succ]
    omega
  refine Nat.le_of_mul_le_mul_left ?_ (Nat.mul_pos Nat.two_pos hk)
  calc 2 * k * n = 2 * (n * k) := by grind
    _ ≤ d * (2 * m + 1) := by grind
    _ ≤ d * (2 * (k * (q + 1))) := Nat.mul_le_mul_left d hm
    _ = 2 * k * (d * (q + 1)) := by grind

/-! ### Binary numbers -/

namespace BinaryNumber

theorem exponentOf_le (n d : Nat) : exponentOf n d ≤ n.log2 - d.log2 - 52 := by
  unfold exponentOf
  dsimp only
  split <;> omega

theorem le_exponentOf (n d : Nat) : (n.log2 : Int) - d.log2 - 53 ≤ exponentOf n d := by
  unfold exponentOf
  dsimp only
  split <;> omega

/-- A mantissa with `k` digits behind the point. -/
theorem ofQuotient_of_neg (he : exponentOf n d = -k) :
    ofQuotient n d = ⟨nearestQuotient (n * 2 ^ k) d, -k⟩ := by
  simp [ofQuotient, he, pow2]

theorem round_of_neg (m k : Nat) : round ⟨m, -k⟩ = nearestQuotient m (2 ^ k) := by
  simp [round, fraction, pow2]

/-- A mantissa that leaves out the last `k` digits before the point. -/
theorem ofQuotient_of_nonneg (he : exponentOf n d = k) :
    ofQuotient n d = ⟨nearestQuotient n (d * 2 ^ k), k⟩ := by
  simp [ofQuotient, he, pow2]

theorem round_of_nonneg (m k : Nat) : round ⟨m, k⟩ = m * 2 ^ k := by
  simp [round, fraction, pow2, nearestQuotient_one]

theorem log2_lt_of_lt_pow (hn : n < 2 ^ 52) : n.log2 < 52 := by
  rcases Nat.eq_zero_or_pos n with rfl | hpos
  · decide
  · exact (Nat.log2_lt (Nat.ne_of_gt hpos)).mpr hn

/-- There are more digits behind the point than the denominator has. -/
theorem exists_exponentOf (hn : n < 2 ^ 52) :
    ∃ k : Nat, exponentOf n d = -k ∧ d.log2 < k ∧ k ≤ d.log2 + 53 := by
  have hlog := log2_lt_of_lt_pow hn
  have hle := exponentOf_le n d
  have hge := le_exponentOf n d
  exact ⟨(-exponentOf n d).toNat, by omega, by omega, by omega⟩

/-- **A numerator below `2 ^ 52` is rounded once**, in effect, by way of a binary number. -/
theorem round_nearest (hd : 0 < d) (hn : n < 2 ^ 52) : Nearest n d (ofQuotient n d).round := by
  obtain ⟨k, he, hlow, -⟩ := exists_exponentOf (d := d) hn
  rw [ofQuotient_of_neg he, round_of_neg]
  have hfine : d < 2 ^ k := (Nat.log2_lt (Nat.ne_of_gt hd)).mp hlow
  have heven : 2 ^ k % 2 = 0 := by
    obtain ⟨j, rfl⟩ := Nat.exists_eq_succ_of_ne_zero (Nat.ne_zero_of_lt hlow)
    rw [Nat.pow_succ, Nat.mul_mod_left]
  exact .twice hd (nearest_nearestQuotient hd) (nearest_nearestQuotient (Nat.two_pow_pos k)) hfine
    heven

/-- Large numbers are not: what is hardly above two and a half is taken for it, and rounded down. -/
example : nearestQuotient (5 * 10 ^ 20 + 1) (2 * 10 ^ 20) = 3 ∧
    (ofQuotient (5 * 10 ^ 20 + 1) (2 * 10 ^ 20)).round = 2 := by decide

theorem overflows_of_neg (hm : m < 2 ^ 106) : overflows ⟨m, -k⟩ = false := by
  have hpow : ∀ j, 106 ≤ j → m < pow2 j := fun j hj =>
    Nat.lt_of_lt_of_le hm (Nat.pow_le_pow_right (by decide) hj)
  have hfraction : (fraction ⟨m, -k⟩).1 = m := by simp [fraction, pow2]
  refine decide_eq_false (Nat.not_le_of_lt ?_)
  rw [hfraction]
  exact hpow 1024 (by decide)

/-- Its mantissa has little more than a hundred digits. -/
theorem not_overflows (hd : 0 < d) (hn : n < 2 ^ 52) : (ofQuotient n d).overflows = false := by
  obtain ⟨k, he, -, hhigh⟩ := exists_exponentOf (d := d) hn
  have hbelow := (nearest_nearestQuotient (n := n * 2 ^ k) hd).below
  have hscale : 2 ^ k ≤ d * 2 ^ 53 :=
    calc 2 ^ k ≤ 2 ^ (d.log2 + 53) := Nat.pow_le_pow_right (by decide) hhigh
      _ = 2 ^ d.log2 * 2 ^ 53 := Nat.pow_add ..
      _ ≤ d * 2 ^ 53 := Nat.mul_le_mul_right _ (Nat.log2_self_le (Nat.ne_of_gt hd))
  have hnumerator : n * 2 ^ k ≤ d * (2 ^ 52 * 2 ^ 53) :=
    calc n * 2 ^ k ≤ 2 ^ 52 * (d * 2 ^ 53) := Nat.mul_le_mul (Nat.le_of_lt hn) hscale
      _ = d * (2 ^ 52 * 2 ^ 53) := Nat.mul_left_comm ..
  have hmantissa : nearestQuotient (n * 2 ^ k) d ≤ 2 ^ 52 * 2 ^ 53 + 1 := by
    apply Nat.le_of_mul_le_mul_left _ hd
    rw [Nat.mul_succ]
    omega
  rw [ofQuotient_of_neg he]
  apply overflows_of_neg
  omega

/-- What leaves out digits before the point has fifty others before it. -/
theorem le_round_of_nonneg (hd : 0 < d) (he : exponentOf n d = k) :
    2 ^ 51 ≤ (ofQuotient n d).round := by
  rw [ofQuotient_of_nonneg he, round_of_nonneg]
  have hlog : 51 + (d.log2 + 1 + k) ≤ n.log2 := by
    have hle := exponentOf_le n d
    omega
  have hn : 2 ^ 51 * (d * 2 ^ k) ≤ n :=
    calc 2 ^ 51 * (d * 2 ^ k) ≤ 2 ^ 51 * (2 ^ (d.log2 + 1) * 2 ^ k) :=
          Nat.mul_le_mul_left _ (Nat.mul_le_mul_right _ (Nat.le_of_lt Nat.lt_log2_self))
      _ = 2 ^ (51 + (d.log2 + 1 + k)) := by rw [Nat.pow_add 2 51, Nat.pow_add 2 (d.log2 + 1)]
      _ ≤ 2 ^ n.log2 := Nat.pow_le_pow_right (by decide) hlog
      _ ≤ n := Nat.log2_self_le (by rintro rfl; simp at hlog)
  have hmantissa : 2 ^ 51 ≤ nearestQuotient n (d * 2 ^ k) := by
    have hunit : 0 < d * 2 ^ k := Nat.mul_pos hd (Nat.two_pow_pos k)
    have habove := (nearest_nearestQuotient (n := n) hunit).above
    apply Nat.le_of_not_lt
    intro hlt
    have hsmall := Nat.mul_le_mul_left (d * 2 ^ k) (Nat.succ_le_of_lt hlt)
    rw [Nat.mul_succ] at hsmall
    omega
  exact Nat.le_trans hmantissa (Nat.le_mul_of_pos_right _ (Nat.two_pow_pos k))

/-- Whatever is rounded, the result is at most one too small, unless it is large. -/
theorem le_round (hd : 0 < d) :
    n ≤ d * ((ofQuotient n d).round + 1) ∨ 2 ^ 51 ≤ (ofQuotient n d).round := by
  obtain ⟨k, he | he⟩ := Int.eq_nat_or_neg (exponentOf n d)
  · exact .inr (le_round_of_nonneg hd he)
  · left
    rw [ofQuotient_of_neg he, round_of_neg]
    have hpow := Nat.two_pow_pos k
    exact (nearest_nearestQuotient hd).twice_le (nearest_nearestQuotient hpow) hpow

end BinaryNumber

end ChipEight
