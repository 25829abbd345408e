/-
A relay between a run and the real world.

Before a step, the world's possible answers are laid out in the relay; after it, the relay holds
what the step asked for.  A step looks outside at most once, so no answer is used twice.
-/
import ChipEight.Host.Headless

namespace ChipEight

/-- What a step asks to be done. -/
inductive Request
  | sleep (delay : Int)
  | render (p : Picture)
  | setTone (on : Bool)
  deriving DecidableEq, Repr

structure Relay where
  /-- the time -/
  reading : Int
  /-- the keys that are held -/
  held : List Int := []
  /-- whether the user wants to quit -/
  quit : Bool := false
  requests : List Request := []
  deriving DecidableEq, Repr

namespace Relay

def ask (request : Request) (r : Relay) : Relay :=
  { r with requests := r.requests ++ [request] }

def host : Host Relay Mishap where
  read r := (r.reading, r)
  sleep delay r := (.ok (), r.ask (.sleep delay))
  poll keys r := ((.ok r.quit, (keys.pressAll r.held).2), r)
  render p r := (.ok (), r.ask (.render p))
  setTone on r := (.ok (), r.ask (.setTone on))

end Relay

end ChipEight
