/-
Countdowns: byte registers that lose one in every period of real time.

A countdown is not driven by an interrupt.  It is checked now and then against a
clock, and goes down by at most one in a check.  Its schedule is anchored to
the time at which it last should have gone down, so it does not drift when the checks are
irregular:

    lateness = now - anchor - period        (due when not negative).

The first check after a write sets the anchor.  A decrement that is late by a
whole period or more sets the anchor anew, so a stall is never followed by a burst.
-/

namespace ChipEight

/-- Nanoseconds in a second. -/
def second : Int := 1000000000

/-- A register that counts down, and the time its schedule is anchored to. -/
structure Countdown where
  value : UInt8
  anchor : Option Int
  deriving DecidableEq, Repr

namespace Countdown

/-- A countdown just written; only the low eight bits of `value` are kept. -/
def load (value : Int) : Countdown := ⟨UInt8.ofInt value, none⟩

/-- By how much a decrement at `now` comes late, if one is due. -/
def lateness? (period now : Int) (c : Countdown) : Option Int :=
  if c.value = 0 then none
  else
    match c.anchor with
    | none => none
    | some t => if now - t < period then none else some (now - t - period)

/-- Whether a check at `now` goes down. -/
def isDue (period now : Int) (c : Countdown) : Bool := (c.lateness? period now).isSome

/-- The countdown after a check at `now`. -/
def check (period now : Int) (c : Countdown) : Countdown :=
  match c.lateness? period now with
  | some late => ⟨c.value - 1, some (if late < period then now - late else now)⟩
  | none => { c with anchor := if c.value = 0 then none else some (c.anchor.getD now) }

/-- The length of the stall that a check at `now` makes up for, if it sets the
anchor anew. -/
def stall? (period now : Int) (c : Countdown) : Option Int :=
  (c.lateness? period now).filter (period ≤ ·)

/-! ### Many checks -/

/-- The countdown after checks at the given times. -/
def after (period : Int) (c : Countdown) (times : List Int) : Countdown :=
  times.foldl (fun c now => c.check period now) c

/-- The times among `times` at which the countdown goes down. -/
def falls (period : Int) (c : Countdown) : List Int → List Int
  | [] => []
  | now :: times =>
    if c.isDue period now then now :: (c.check period now).falls period times
    else (c.check period now).falls period times

/-- The stalls that checks at the given times make up for. -/
def stalls (period : Int) (c : Countdown) : List Int → List Int
  | [] => []
  | now :: times => (c.stall? period now).toList ++ (c.check period now).stalls period times

end Countdown

/-! ### The two timers of the machine -/

/-- A rate of zero has no period. -/
inductive RateError
  | zero
  deriving DecidableEq, Repr

def RateError.message : RateError → String
  | zero => "integer division or modulo by zero"

/-- The period of a rate per second, in nanoseconds rounded down. -/
def periodOf (rate : Int) : Except RateError Int :=
  if rate = 0 then .error .zero else .ok (second.fdiv rate)

/-- The delay and the sound timer, with their common period. -/
structure Timers where
  period : Int
  delay : Countdown
  sound : Countdown
  deriving DecidableEq, Repr

namespace Timers

/-- Both timers at rest. -/
def stopped (period : Int) : Timers := ⟨period, .load 0, .load 0⟩

def reset (t : Timers) : Timers := stopped t.period

/-- Check both timers at `now`. -/
def check (now : Int) (t : Timers) : Timers :=
  { t with delay := t.delay.check t.period now, sound := t.sound.check t.period now }

/-- The beeper sounds as long as the sound timer runs. -/
def soundOn (t : Timers) : Bool := 0 < t.sound.value

end Timers

end ChipEight
