/-
What is known of a run when it has ended.
-/
import ChipEight.Machine.Tick
import ChipEight.Setting

namespace ChipEight

/-- Why a run ended. -/
inductive Reason
  | quit
  | cycleLimit
  | bounds
  | stackFault
  deriving DecidableEq, Repr

namespace Reason

def name : Reason → String
  | quit => "quit"
  | cycleLimit => "cycle-limit"
  | bounds => "bounds"
  | stackFault => "stack-fault"

def all : List Reason := [quit, cycleLimit, bounds, stackFault]

def ofName? (s : String) : Option Reason := all.find? fun r => r.name == s

/-- What is given for a reason and names none. -/
structure Unknown where
  given : Setting
  deriving DecidableEq, Repr

def Unknown.message (e : Unknown) : String := e.given.shown ++ " is not a valid ExitReason"

/-- The reason that a setting names. -/
def ofSetting : Setting → Except Unknown Reason
  | .text s =>
    match ofName? s with
    | some r => .ok r
    | none => .error ⟨.text s⟩
  | given => .error ⟨given⟩

/-- The reason that goes with a halt of the machine. -/
def ofHalt : Halt → Reason
  | .outOfBounds _ | .register _ => bounds
  | .stack _ => stackFault

end Reason

/-- The result of a run: why it ended, the number of ticks completed, and what
halted the machine, if anything did. -/
structure Report where
  reason : Reason
  cycles : Nat
  fault : Option Halt := none
  deriving DecidableEq, Repr

namespace Report

def ok (r : Report) : Bool := r.fault.isNone

/-- The exit code of the program after a run: `0` if the user or the cycle limit
ended it, `2` if the machine halted. -/
def exitCode (r : Report) : Nat :=
  match r.reason with
  | .quit | .cycleLimit => 0
  | .bounds | .stackFault => 2

/-- The report of a run that was halted in the tick after `cycles` others. -/
def halted (h : Halt) (cycles : Nat) : Report := ⟨.ofHalt h, cycles, some h⟩

end Report

/-- How a run ends: with a report, or with an error of the frontend. -/
abbrev Outcome (ε : Type) := Except ε Report

end ChipEight
