/-
What a run needs from outside: a clock, and a window with keys and a beeper.

The outside is a state `ω` of which the run knows nothing.  It acts on it through these
functions only, so a statement about a run holds for every clock and every
window, and a test can put a scripted one in their place.
-/
import ChipEight.Machine

namespace ChipEight

/-- A clock in nanoseconds. -/
structure Clock (ω ε : Type) where
  /-- the time; looking at a clock may itself take time -/
  read : ω → Int × ω
  /-- wait for a number of nanoseconds, or longer; that may fail, with an error from `ε` -/
  sleep : Int → ω → Except ε Unit × ω

/-- A window, a keypad and a beeper.  All three may fail, with an error from `ε`. -/
structure Frontend (ω ε : Type) where
  /-- press the keys that are held down, and tell whether the user wants to quit -/
  poll : Keypad → ω → (Except ε Bool × Keypad) × ω
  /-- show a picture -/
  render : Picture → ω → Except ε Unit × ω
  /-- switch the beep on or off -/
  setTone : Bool → ω → Except ε Unit × ω

/-- All that a run needs from outside. -/
structure Host (ω ε : Type) extends Clock ω ε, Frontend ω ε

end ChipEight
