/-
A frontend without a window: its keys are scripted, and it remembers what it is told.

The script gives the keys that are held at a poll by the number of the poll, counted from
zero.  The user quits after a number of polls or of pictures, and a poll may be
scripted to fail.  A poll that fails is not counted.
-/
import ChipEight.Host.SimulatedClock

namespace ChipEight

/-- What a frontend or its clock may fail with. -/
inductive Mishap
  | windowLost
  | badKey (e : KeypadError)
  | noSleep (e : SleepError)
  | interrupted
  | reported (text : String)
  deriving DecidableEq, Repr

def Mishap.message : Mishap → String
  | windowLost => "window lost"
  | badKey e => e.message
  | noSleep e => e.message
  | interrupted => ""
  | reported text => text

/-- What the user is going to do. -/
structure Script where
  /-- the keys held, by the number of the poll -/
  keys : List (Nat × List Int) := []
  quitAfterPolls : Option Int := none
  quitAfterFrames : Option Int := none
  /-- the poll at which the window is lost -/
  failAt : Option Int := none
  /-- the poll at which the program is interrupted -/
  interruptAt : Option Int := none
  deriving DecidableEq, Repr

structure Headless where
  script : Script := {}
  /-- the number of polls answered -/
  polls : Nat := 0
  /-- the pictures shown, the oldest first -/
  frames : Array Picture := #[]
  /-- what the beeper was told, without repetitions -/
  tones : Array Bool := #[]

namespace Headless

/-- The keys to be pressed at the next poll. -/
def scripted (f : Headless) : List Int := (f.script.keys.lookup f.polls).getD []

/-- Whether the user wants to quit. -/
def quits (f : Headless) : Bool :=
  f.script.quitAfterPolls.any (fun n : Int => n < f.polls)
    || f.script.quitAfterFrames.any fun n : Int => n ≤ f.frames.size

def poll (keys : Keypad) (f : Headless) : (Except Mishap Bool × Keypad) × Headless :=
  if f.script.failAt = some (f.polls : Int) then ((.error .windowLost, keys), f)
  else if f.script.interruptAt = some (f.polls : Int) then ((.error .interrupted, keys), f)
  else
    match keys.pressAll f.scripted with
    | (.error e, keys) => ((.error (.badKey e), keys), f)
    | (.ok (), keys) =>
      let f := { f with polls := f.polls + 1 }
      ((.ok f.quits, keys), f)

def render (p : Picture) (f : Headless) : Headless := { f with frames := f.frames.push p }

/-- Whether the beeper was last told otherwise, or never told anything. -/
def isNews (on : Bool) (f : Headless) : Bool := f.tones.back? != some on

def setTone (on : Bool) (f : Headless) : Headless :=
  if f.isNews on then { f with tones := f.tones.push on } else f

end Headless

end ChipEight
