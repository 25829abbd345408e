/-
The configuration of the emulator.

All rates and sizes have to be positive.  They are looked at in a fixed order, and the first
that is not is the one complained about.
-/
import ChipEight.Machine
import ChipEight.Setting

namespace ChipEight

structure Config where
  /-- instructions per second -/
  clockRate : Int := 500
  /-- decrements of the timers per second -/
  timerRate : Int := 60
  /-- pictures per second -/
  frameRate : Int := 60
  /-- width and height of a pixel in the window -/
  scale : Int := 15
  /-- pitch of the beep, in hertz -/
  tone : Int := 440
  /-- whether the machine runs on a thread of its own -/
  threaded : Bool := false
  dialect : Dialect := {}
  deriving DecidableEq, Repr

/-- What is wrong with a configuration. -/
inductive ConfigError
  /-- a setting has to be positive and is not -/
  | notPositive (name : String) (value : Int)
  /-- a setting is no number, so it cannot be positive -/
  | noNumber (given : Setting)
  | unknownKeyChoice (e : UnknownKeyChoice)
  deriving DecidableEq, Repr

def ConfigError.message : ConfigError → String
  | notPositive name value => name ++ " must be positive, got " ++ toString value
  | noNumber given =>
    "'<=' not supported between instances of '" ++ given.kind ++ "' and 'int'"
  | unknownKeyChoice e => e.message

namespace Config

/-- The value of a setting that has to be positive. -/
def positive (name : String) : Setting → Except ConfigError Int
  | .number n => if n ≤ 0 then .error (.notPositive name n) else .ok n
  | given => .error (.noNumber given)

/-- The configuration with the given settings. -/
def ofSettings (clockRate timerRate frameRate scale tone : Setting) (threaded : Bool)
    (dialect : Dialect) : Except ConfigError Config := do
  return {
    clockRate := ← positive "clock_hz" clockRate
    timerRate := ← positive "timer_hz" timerRate
    frameRate := ← positive "fps" frameRate
    scale := ← positive "scale" scale
    tone := ← positive "tone_hz" tone
    threaded := threaded
    dialect := dialect }

/-- The machine that a configuration describes. -/
def machine (c : Config) (dice : Dice) : Machine :=
  .powerOn c.dialect dice (second.fdiv c.timerRate)

end Config

end ChipEight
