/-
The run loop, one step at a time.

A run goes round in passes.  Each pass reads the clock once and then serves what is due:

    start → look → poll → execute → sound → draw → measure → sleep
              ↑__________________________________________________|

A tick is a poll of the keys and the execution of one instruction; the keys are let go
after it.  The timers are checked in every pass, and the beeper follows the sound timer.  A
picture is drawn only if the screen may have changed.  At the end of a pass the run sleeps
until the next of the three due times; a clock that cannot sleep so long ends the run.

Every way out of the loop leads through `silence`, which switches the beeper off, to
`over`, where the run stays.  A step looks at the outside at most once, so the steps of
a run can be interleaved with those of another thread.
-/
import ChipEight.Host
import ChipEight.Notice
import ChipEight.Pace
import ChipEight.Report

namespace ChipEight

/-- What a run does next. -/
inductive Phase (ε : Type)
  | start
  | look
  | poll
  | execute
  | sound
  | draw
  | measure
  | sleep (delay : Int)
  | silence (outcome : Outcome ε)
  | over (outcome : Outcome ε)
  deriving DecidableEq

/-- The state of a run. -/
structure Run (ε : Type) where
  phase : Phase ε
  machine : Machine
  /-- what the beeper was last told -/
  tone : Bool
  /-- the ticks completed -/
  cycles : Nat
  /-- the time of this pass -/
  now : Int
  nextTick : Int
  nextFrame : Int
  nextTimer : Int
  pace : Pace
  /-- the number of ticks to stop after; without it, the run goes on until something else ends it -/
  limit : Option Int

namespace Run

variable {ω ε : Type}

/-- A run of a machine that has not begun. -/
def fresh (c : Config) (m : Machine) (limit : Option Int) : Run ε :=
  { phase := .start, machine := m, tone := false, cycles := 0, now := 0, nextTick := 0,
    nextFrame := 0, nextTimer := 0, pace := .of c m, limit := limit }

/-- Another run of the same machine, with a limit of its own. -/
def again (r : Run ε) (limit : Option Int) : Run ε := { r with phase := .start, limit := limit }

/-- How the run ended, if it has. -/
def outcome? (r : Run ε) : Option (Outcome ε) :=
  match r.phase with
  | .over o => some o
  | _ => none

/-- The run on its way out. -/
def leave (r : Run ε) (o : Outcome ε) : Run ε := { r with phase := .silence o }

/-- Whether as many ticks were made as the run is limited to. -/
def exhausted (r : Run ε) : Bool := r.limit.any fun n : Int => n ≤ r.cycles

/-- The earliest of the three due times. -/
def nextWake (r : Run ε) : Int := min r.nextTick (min r.nextFrame r.nextTimer)

/-- Tell the beeper, unless it was told the same before. -/
def tell (host : Host ω ε) (on : Bool) (r : Run ε) (w : ω) : Except ε Unit × Run ε × ω :=
  if r.tone = on then (.ok (), r, w)
  else
    let (answer, w) := host.setTone on w
    (answer, { r with tone := on }, w)

/-! ### The steps of a pass -/

/-- Everything is due at the time the run starts. -/
def begin (host : Host ω ε) (r : Run ε) (w : ω) : Run ε × ω :=
  let (t, w) := host.read w
  ({ r with
      phase := .look, cycles := 0, now := t, nextTick := t, nextFrame := t, nextTimer := t }, w)

/-- Stop at the limit, or look at the clock. -/
def look (host : Host ω ε) (r : Run ε) (w : ω) : Run ε × ω :=
  if r.exhausted then (r.leave (.ok { reason := .cycleLimit, cycles := r.cycles }), w)
  else
    let (t, w) := host.read w
    ({ r with phase := .poll, now := t }, w)

/-- If a tick is due, ask for the keys. -/
def poll (host : Host ω ε) (r : Run ε) (w : ω) : Run ε × ω :=
  if r.now < r.nextTick then ({ r with phase := .sound }, w)
  else
    let ((answer, keys), w) := host.poll r.machine.keys w
    let r := { r with machine := { r.machine with keys } }
    match answer with
    | .ok false => ({ r with phase := .execute }, w)
    | .ok true => (r.leave (.ok { reason := .quit, cycles := r.cycles }), w)
    | .error e => (r.leave (.error e), w)

/-- Perform a tick. -/
def execute (r : Run ε) : Run ε :=
  let (answer, m) := r.machine.tick
  let r := { r with machine := m.releaseKeys }
  match answer with
  | .ok _ =>
    { r with
      phase := .sound
      cycles := r.cycles + 1
      nextTick := nextDue r.nextTick r.pace.tick r.now }
  | .error h => r.leave (.ok (.halted h r.cycles))

/-- Check the timers and let the beeper follow. -/
def sound (host : Host ω ε) (r : Run ε) (w : ω) : Run ε × ω :=
  let r := { r with machine := r.machine.checkTimers r.now }
  match r.tell host r.machine.timers.soundOn w with
  | (.error e, r, w) => (r.leave (.error e), w)
  | (.ok (), r, w) =>
    if r.now < r.nextTimer then ({ r with phase := .draw }, w)
    else ({ r with phase := .draw, nextTimer := nextDue r.nextTimer r.pace.timer r.now }, w)

/-- If a picture is due, show the screen unless it was shown already. -/
def draw (host : Host ω ε) (r : Run ε) (w : ω) : Run ε × ω :=
  if r.now < r.nextFrame then ({ r with phase := .measure }, w)
  else
    let drawn := { r with phase := .measure, nextFrame := nextDue r.nextFrame r.pace.frame r.now }
    if r.machine.screen.dirty then
      match host.render r.machine.screen.pixels w with
      | (.error e, w) => (r.leave (.error e), w)
      | (.ok (), w) =>
        ({ drawn with machine := { r.machine with screen := r.machine.screen.shown } }, w)
    else (drawn, w)

/-- Find out how long there is nothing to do. -/
def measure (host : Host ω ε) (r : Run ε) (w : ω) : Run ε × ω :=
  let (t, w) := host.read w
  let delay := r.nextWake - t
  ({ r with phase := if 0 < delay then .sleep delay else .look }, w)

/-- Sleep until there is something to do. -/
def rest (host : Host ω ε) (delay : Int) (r : Run ε) (w : ω) : Run ε × ω :=
  match host.sleep delay w with
  | (.ok (), w) => ({ r with phase := .look }, w)
  | (.error e, w) => (r.leave (.error e), w)

/-- Switch the beeper off.  If that fails, it is what the run is remembered for. -/
def silence (host : Host ω ε) (o : Outcome ε) (r : Run ε) (w : ω) : Run ε × ω :=
  match r.tell host false w with
  | (.ok (), r, w) => ({ r with phase := .over o }, w)
  | (.error e, r, w) => ({ r with phase := .over (.error e) }, w)

/-- One step of a run. -/
def advance (host : Host ω ε) (r : Run ε) (w : ω) : Run ε × ω :=
  match r.phase with
  | .start => r.begin host w
  | .look => r.look host w
  | .poll => r.poll host w
  | .execute => (r.execute, w)
  | .sound => r.sound host w
  | .draw => r.draw host w
  | .measure => r.measure host w
  | .sleep delay => r.rest host delay w
  | .silence o => r.silence host o w
  | .over _ => (r, w)

/-! ### Many steps -/

/-- The run after a number of steps. -/
def after (host : Host ω ε) : Nat → Run ε → ω → Run ε × ω
  | 0, r, w => (r, w)
  | n + 1, r, w =>
    let (r, w) := r.advance host w
    r.after host n w

/-- What the step from `r` to `next` reports. -/
def notices (r next : Run ε) : List Notice :=
  match r.phase with
  | .poll =>
    match next.phase with
    | .silence (.ok report) => [.quitRequested report.cycles]
    | _ => []
  | .execute =>
    r.machine.tickNotices Instruction.decode ++
      match r.machine.tick with
      | (.error h, m) => [.halted h m]
      | _ => []
  | .sound => r.machine.timers.checkNotices r.now
  | _ => []

/-- Play a run to its end, or until `fuel` steps are made, and keep a log. -/
def play (host : Host ω ε) : Nat → Run ε → ω → Log → (Run ε × ω) × Log
  | 0, r, w, log => ((r, w), log)
  | fuel + 1, r, w, log =>
    match r.outcome? with
    | some _ => ((r, w), log)
    | none =>
      let (next, w) := r.advance host w
      next.play host fuel w (log.record (r.notices next))

end Run

end ChipEight
