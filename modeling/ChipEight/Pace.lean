/-
The pace of a run: how often it ticks, draws and lets the timers go down.

Each of the three activities has a period and a next due time.  When it is
served at `now`, its next due time moves on by one period.  If that too is a whole period
behind, the backlog is dropped and the next due time is a period from now:

    next due = due + period     while now < due + 2 * period,
               now + period     from then on.
-/
import ChipEight.Config

namespace ChipEight

/-- The three periods of a run, in nanoseconds. -/
structure Pace where
  tick : Int
  frame : Int
  timer : Int
  deriving DecidableEq, Repr

/-- The pace that a configuration sets for a machine.  The timers' period is the
machine's own. -/
def Pace.of (c : Config) (m : Machine) : Pace :=
  ⟨second.fdiv c.clockRate, second.fdiv c.frameRate, m.timers.period⟩

/-- When an activity that was due at `due` and is served at `now` is due again. -/
def nextDue (due period now : Int) : Int :=
  if now - (due + period) < period then due + period else now + period

end ChipEight
