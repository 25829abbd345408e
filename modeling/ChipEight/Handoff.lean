/-
The handoff: what two threads pass to each other while one runs the machine
and the other owns the window.

    main thread    keys, a request to quit    →
                   picture, tone              ←    worker

Each thing is a single place that is overwritten, so the reader finds the newest value.
A picture is taken away when it is read, and is therefore shown once.  Every operation
is atomic, and what it passes on is a copy.
-/
import ChipEight.Host

namespace ChipEight

structure Handoff where
  keys : Keypad := .released
  frame : Option Picture := none
  tone : Bool := false
  quit : Bool := false
  deriving DecidableEq, Repr

namespace Handoff

/-! ### The side of the main thread -/

def publish (keys : Keypad) (h : Handoff) : Handoff := { h with keys }

/-- The newest picture, if one came since the last take. -/
def take (h : Handoff) : Option Picture × Handoff := (h.frame, { h with frame := none })

def requestQuit (h : Handoff) : Handoff := { h with quit := true }

/-! ### The side of the worker -/

/-- The request to quit, and the keys that replace the worker's. -/
def poll (h : Handoff) : Bool × Keypad := (h.quit, h.keys)

def render (p : Picture) (h : Handoff) : Handoff := { h with frame := some p }

def setTone (on : Bool) (h : Handoff) : Handoff := { h with tone := on }

/-- The handoff in the place of a window, beside the clock of the outside. -/
def host {ω ε : Type} (clock : Clock ω ε) : Host (Handoff × ω) ε where
  read := fun (h, w) => let (t, w) := clock.read w; (t, h, w)
  sleep := fun delay (h, w) => let (answer, w) := clock.sleep delay w; (answer, h, w)
  poll := fun _ (h, w) => let (quit, keys) := h.poll; ((.ok quit, keys), h, w)
  render := fun p (h, w) => (.ok (), h.render p, w)
  setTone := fun on (h, w) => (.ok (), h.setTone on, w)

end Handoff

end ChipEight
