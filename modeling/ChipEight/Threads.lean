/-
A run on a thread of its own.

The worker plays the run with the handoff in the place of a window.  The main thread owns
the real frontend and goes round in passes of its own:

    check → poll → (request →) publish → take → (present →) listen → sound → pause
      ↑______________________________________________________________________|

It leaves when the worker has ended, or when its frontend fails.  Either way it
requests the worker to quit and waits for it, so the worker never outlives it:

    stop → join → (hush →) over.

When its run is over, the worker ends.  If that was with an error, it first requests everyone to
quit.  As long as it has not ended, the main thread finds it alive:

    run → (leave →) ended.

A step of either thread performs at most one operation on the handoff, and the worker ends in a
step of its own, so the interleavings of such steps are all that two real threads can do.
-/
import ChipEight.Handoff
import ChipEight.Run

namespace ChipEight

/-- What the main thread does next. -/
inductive MainPhase (ε : Type)
  | check
  | poll
  | request (keys : Keypad)
  | publish (keys : Keypad)
  | take
  | present (p : Picture)
  | listen
  | sound (on : Bool)
  | pause
  | stop (failure : Option ε)
  | join (failure : Option ε)
  | hush (outcome : Outcome ε)
  | over (outcome : Outcome ε)

/-- What the worker does next.  It plays its run; when that is over, it ends, and leaves behind how
the run was over. -/
inductive WorkerPhase (ε : Type)
  | run
  | leave (failure : ε)
  | ended (outcome : Outcome ε)

/-- The state of the two threads. -/
structure Threads (ε : Type) where
  main : MainPhase ε
  worker : Run ε
  handoff : Handoff
  workerPhase : WorkerPhase ε := .run

namespace Threads

variable {ω ε : Type}

/-- A worker about to run, and the main thread about to serve it. -/
def start (worker : Run ε) : Threads ε := { main := .check, worker := worker, handoff := {} }

/-- What the start of the threads reports. -/
def startNotices : List Notice := [.workerStarted]

def outcome? (t : Threads ε) : Option (Outcome ε) :=
  match t.main with
  | .over o => some o
  | _ => none

/-- What the worker has left behind, if it has ended. -/
def workerOutcome? (t : Threads ε) : Option (Outcome ε) :=
  match t.workerPhase with
  | .ended o => some o
  | _ => none

/-- Whether the worker has not ended. -/
def workerAlive (t : Threads ε) : Bool := t.workerOutcome?.isNone

/-! ### The two threads -/

/-- The phase after a call of the frontend. -/
def goOn (answer : Except ε Unit) (next : MainPhase ε) : MainPhase ε :=
  match answer with
  | .ok () => next
  | .error e => .stop (some e)

/-- A step of the main thread. -/
def mainStep (frontend : Frontend ω ε) (t : Threads ε) (w : ω) : Threads ε × ω :=
  match t.main with
  | .check => ({ t with main := if t.workerAlive then .poll else .stop none }, w)
  | .poll =>
    let ((answer, keys), w) := frontend.poll .released w
    let next := match answer with
      | .ok true => .request keys
      | .ok false => .publish keys
      | .error e => .stop (some e)
    ({ t with main := next }, w)
  | .request keys => ({ t with main := .publish keys, handoff := t.handoff.requestQuit }, w)
  | .publish keys => ({ t with main := .take, handoff := t.handoff.publish keys }, w)
  | .take =>
    let (frame, handoff) := t.handoff.take
    let next := match frame with
      | some p => .present p
      | none => .listen
    ({ t with main := next, handoff := handoff }, w)
  | .present p =>
    let (answer, w) := frontend.render p w
    ({ t with main := goOn answer .listen }, w)
  | .listen => ({ t with main := .sound t.handoff.tone }, w)
  | .sound on =>
    let (answer, w) := frontend.setTone on w
    ({ t with main := goOn answer .pause }, w)
  | .pause => ({ t with main := .check }, w)
  | .stop failure => ({ t with main := .join failure, handoff := t.handoff.requestQuit }, w)
  | .join failure =>
    match t.workerOutcome?, failure with
    | none, _ => (t, w)
    | some _, some e => ({ t with main := .over (.error e) }, w)
    | some o, none => ({ t with main := .hush o }, w)
  | .hush o =>
    let (answer, w) := frontend.setTone false w
    ({ t with main := .over (match answer with | .ok () => o | .error e => .error e) }, w)
  | .over _ => (t, w)

/-- A step of the worker. -/
def workerStep (clock : Clock ω ε) (t : Threads ε) (w : ω) : Threads ε × ω :=
  match t.workerPhase with
  | .run =>
    match t.worker.outcome? with
    | none =>
      let (worker, handoff, w) := t.worker.advance (Handoff.host clock) (t.handoff, w)
      ({ t with worker, handoff }, w)
    | some (.ok report) => ({ t with workerPhase := .ended (.ok report) }, w)
    | some (.error e) => ({ t with workerPhase := .leave e, handoff := t.handoff.requestQuit }, w)
  | .leave e => ({ t with workerPhase := .ended (.error e) }, w)
  | .ended _ => (t, w)

end Threads

end ChipEight
