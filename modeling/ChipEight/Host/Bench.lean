/-
The test bench: a simulated clock and a frontend without a window, with a record of
what a run asked of the frontend and when.
-/
import ChipEight.Host.Headless
import ChipEight.Host.SimulatedClock

namespace ChipEight

/-- What a run asked of the frontend. -/
inductive Event
  | polled
  | rendered (p : Picture)
  | toned (on isNews : Bool)
  deriving DecidableEq, Repr

structure Bench where
  clock : SimulatedClock := {}
  frontend : Headless := {}
  /-- what happened, with the time of the clock, the oldest first -/
  events : Array (Int × Event) := #[]

namespace Bench

def record (e : Event) (b : Bench) : Bench := { b with events := b.events.push (b.clock.time, e) }

def poll (keys : Keypad) (b : Bench) : (Except Mishap Bool × Keypad) × Bench :=
  let (answer, frontend) := b.frontend.poll keys
  (answer, { b.record .polled with frontend })

def render (p : Picture) (b : Bench) : Except Mishap Unit × Bench :=
  (.ok (), { b.record (.rendered p) with frontend := b.frontend.render p })

def setTone (on : Bool) (b : Bench) : Except Mishap Unit × Bench :=
  (.ok (), { b.record (.toned on (b.frontend.isNews on)) with
    frontend := b.frontend.setTone on })

/-- The bench as the outside of a run. -/
def host : Host Bench Mishap where
  read b := let (t, clock) := b.clock.read; (t, { b with clock })
  sleep delay b :=
    let (answer, clock) := b.clock.sleep delay
    (answer.mapError .noSleep, { b with clock })
  poll := poll
  render := render
  setTone := setTone

/-- The bench with nothing on record. -/
def forget (b : Bench) : Bench := { b with events := #[] }

end Bench

end ChipEight
