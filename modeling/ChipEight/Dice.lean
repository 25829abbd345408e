/-
Random bytes.

The machine draws its random bytes from a sequence fixed beforehand, and keeps
its place in it.  So a run with random numbers is a function like any other,
and two runs with the same sequence can be compared.
-/

namespace ChipEight

/-- A sequence of random bytes and the number of those already drawn. -/
structure Dice where
  faces : Nat → UInt8
  rolled : Nat

namespace Dice

/-- The next byte, and the dice after it. -/
def roll (d : Dice) : UInt8 × Dice := (d.faces d.rolled, { d with rolled := d.rolled + 1 })

/-- The given bytes over and over; zeros if there are none. -/
def cycling (bytes : Array UInt8) : Dice := ⟨fun n => bytes.getD (n % bytes.size) 0, 0⟩

/-- A sequence that looks random, one for every seed: each byte is cut from a
well-mixed multiple of an odd constant. -/
def seeded (seed : UInt64) : Dice :=
  { faces := fun n =>
      let z := seed + UInt64.ofNat (n + 1) * 0x9E3779B97F4A7C15
      let z := (z ^^^ (z >>> 30)) * 0xBF58476D1CE4E5B9
      let z := (z ^^^ (z >>> 27)) * 0x94D049BB133111EB
      (z >>> 56).toUInt8
    rolled := 0 }

end Dice

end ChipEight
