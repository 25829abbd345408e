/-
A simulated clock.

It moves only when it is used.  A reading returns the time and then takes `readCost`;
a sleep lasts as long as was asked for, and longer where the clock oversleeps:

    ideal clock:   readCost = 0,   oversleep = [].

A sleep is asked for in seconds, as a binary number.  Up to `longestExact` nanoseconds nothing
is lost on the way.  A sleep of more seconds, or of more nanoseconds, than there are binary
numbers for cannot be had, and takes no time.
-/
import ChipEight.Host
import ChipEight.Rounding

namespace ChipEight

structure SimulatedClock where
  time : Int := 0
  /-- what every reading takes -/
  readCost : Int := 0
  /-- by how much single sleeps are too long, by their number -/
  oversleep : List (Nat × Int) := []
  /-- the number of sleeps so far -/
  sleeps : Nat := 0
  deriving DecidableEq, Repr

/-- Why a sleep cannot be had. -/
inductive SleepError
  /-- it has too many seconds -/
  | tooLong
  /-- its seconds have too many nanoseconds -/
  | endless
  deriving DecidableEq, Repr

def SleepError.message : SleepError → String
  | tooLong => "integer division result too large for a float"
  | endless => "cannot convert float infinity to integer"

namespace SimulatedClock

def read (c : SimulatedClock) : Int × SimulatedClock :=
  (c.time, { c with time := c.time + c.readCost })

/-- What the next sleep takes beyond the time asked for. -/
def excess (c : SimulatedClock) : Int := (c.oversleep.lookup c.sleeps).getD 0

/-- A number of nanoseconds after it was turned to seconds and back. -/
def inSeconds (delay : Nat) : Except SleepError Nat :=
  let seconds := BinaryNumber.ofQuotient delay 1000000000
  let nanoseconds :=
    BinaryNumber.ofQuotient (seconds.fraction.1 * 1000000000) seconds.fraction.2
  if seconds.overflows then .error .tooLong
  else if nanoseconds.overflows then .error .endless
  else .ok nanoseconds.round

/-- The longest sleep that is not changed by being asked for in seconds. -/
def longestExact : Int := 0x4000000000000

/-- The clock after a sleep of `asked` nanoseconds, and of what it oversleeps. -/
def pass (asked : Int) (c : SimulatedClock) : SimulatedClock :=
  { c with time := c.time + asked + c.excess, sleeps := c.sleeps + 1 }

def sleep (delay : Int) (c : SimulatedClock) : Except SleepError Unit × SimulatedClock :=
  if delay ≤ longestExact then (.ok (), c.pass delay)
  else
    match inSeconds delay.toNat with
    | .ok asked => (.ok (), c.pass asked)
    | .error e => (.error e, c)

end SimulatedClock

end ChipEight
