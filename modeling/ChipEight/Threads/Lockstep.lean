/-
Two threads that take turns.

The main thread goes on until it pauses, or has to wait for the worker.  The worker then
goes on until it has slept, or has ended.  So there is one order of steps instead of
many, and a threaded run can be played like any other.

A worker that is never done with its work never sleeps.  Where the main thread must get its
turn all the same, the worker's turn is limited to a number of steps.
-/
import ChipEight.Threads

namespace ChipEight

inductive Turn
  | main
  | worker
  deriving DecidableEq, Repr

/-- Two threads, and the one whose turn it is. -/
structure Lockstep (ε : Type) where
  threads : Threads ε
  turn : Turn
  /-- the number of steps that the worker may make in a turn, if it is limited -/
  limit : Option Nat
  /-- the number of steps made in this turn -/
  made : Nat := 0

namespace Lockstep

variable {ω ε : Type}

/-- The main thread goes first. -/
def start (worker : Run ε) (limit : Option Nat) : Lockstep ε :=
  { threads := .start worker, turn := .main, limit := limit }

/-- A limit of the worker's turns that is not met by workers that sleep. -/
def patience : Nat := 20000

def outcome? (s : Lockstep ε) : Option (Outcome ε) := s.threads.outcome?

/-- Whether one more step is the last that the worker may make in this turn. -/
def isWornOut (s : Lockstep ε) : Bool := s.limit.any (· ≤ s.made + 1)

/-- Whose turn it is after a step from `s` to `next`. -/
def turnAfter (s : Lockstep ε) (next : Threads ε) : Turn :=
  match s.turn with
  | .main =>
    match s.threads.main with
    | .pause => .worker
    | .join _ => if s.threads.workerAlive then .worker else .main
    | _ => .main
  | .worker =>
    match s.threads.worker.phase, next.worker.phase with
    | .sleep _, .look => .main
    | _, _ => if next.workerAlive && !s.isWornOut then .worker else .main

/-- A step of the thread whose turn it is. -/
def advance (host : Host ω ε) (s : Lockstep ε) (w : ω) : Lockstep ε × ω :=
  let (next, w) := match s.turn with
    | .main => s.threads.mainStep host.toFrontend w
    | .worker => s.threads.workerStep host.toClock w
  let turn := s.turnAfter next
  ({ s with threads := next, turn := turn, made := if turn = s.turn then s.made + 1 else 0 }, w)

/-- What the step from `s` to `next` reports. -/
def notices (s next : Lockstep ε) : List Notice :=
  match s.turn with
  | .main => []
  | .worker => s.threads.worker.notices next.threads.worker

/-- Play both threads until the main thread is done, or until `fuel` steps are made, and
keep a log. -/
def play (host : Host ω ε) : Nat → Lockstep ε → ω → Log → (Lockstep ε × ω) × Log
  | 0, s, w, log => ((s, w), log)
  | fuel + 1, s, w, log =>
    match s.outcome? with
    | some _ => ((s, w), log)
    | none =>
      let (next, w) := s.advance host w
      next.play host fuel w (log.record (s.notices next))

end Lockstep

end ChipEight
