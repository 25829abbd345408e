/-
The program as a command: options, program file, run, farewell.

    prepare     options and program file   →   a session, or a refusal
    session     its run, on the main thread or on a worker
    farewell    the outcome of the run     →   exit code and messages

A wrong command line is told before anything else is looked at, then a log without a level, and
then a wrong configuration, all before the program file is opened.
-/
import ChipEight.CommandLine.Options
import ChipEight.Host.Headless
import ChipEight.ProgramFile
import ChipEight.Threads.Lockstep

namespace ChipEight.Command

/-- An error that the program does not handle. -/
inductive Crash
  /-- the level of the log was left blank -/
  | noLevel
  | config (e : ConfigError)
  | program (e : ProgramError)
  | frontend (e : Mishap)
  deriving DecidableEq, Repr

def Crash.message : Crash → String
  | noLevel => "Level not an integer or a valid string: []"
  | config e => e.message
  | program e => e.message
  | frontend e => e.message

/-- How the program leaves: with an exit code or a crash, and with what it prints then. -/
structure Answer where
  exit : Except Crash Nat
  output : String := ""
  errorOutput : String := ""

/-- Why there is nothing to run. -/
inductive Refusal
  | ending (e : CommandLine.Ending)
  | noLevel
  | config (e : ConfigError)
  | program (e : ProgramError)
  deriving DecidableEq, Repr

def Refusal.answer : Refusal → Answer
  | ending e => { exit := .ok e.exitCode, output := e.output, errorOutput := e.errorOutput }
  | noLevel => { exit := .error .noLevel }
  | config e => { exit := .error (.config e) }
  | program .nulInPath => { exit := .error (.program .nulInPath) }
  | program e => { exit := .ok 1, errorOutput := e.message ++ "\n" }

/-- A machine with its program, ready to run. -/
structure Session where
  config : Config
  machine : Machine
  log : Log

/-- Prepare a session, given a way to read files and the dice of the machine. -/
def prepare (read : String → Except FileError (Array UInt8)) (dice : Dice)
    (arguments : List String) : Except Refusal Session := do
  let options ← (CommandLine.parse arguments).mapError .ending
  let threshold ← options.logLevel.elim (.error .noLevel) .ok
  let config ← options.config.mapError .config
  let program ← (readProgramWith read options.program).mapError .program
  let notices := .programRead program.size options.program :: Machine.loadNotices program
  return {
    config := config
    machine := (config.machine dice).load program
    log := Log.record { threshold := threshold } notices }

namespace Session

variable {ω ε : Type}

/-- The run of a session. -/
def run (s : Session) : Run ε := .fresh s.config s.machine none

/-- Play a session to its end, or until `fuel` steps are made. -/
def play (host : Host ω ε) (fuel : Nat) (s : Session) (w : ω) : Option (Outcome ε) × ω × Log :=
  if s.config.threaded then
    let ((t, w), log) :=
      (Lockstep.start s.run (some Lockstep.patience)).play host fuel w
        (s.log.record Threads.startNotices)
    (t.outcome?, w, log)
  else
    let ((r, w), log) := s.run.play host fuel w s.log
    (r.outcome?, w, log)

end Session

/-! ### Farewell -/

/-- What is left to report after a run. -/
def farewellNotices : Outcome Mishap → List Notice
  | .ok r => [.stopped r.reason.name r.cycles]
  | .error _ => []

/-- How the program leaves after a run.  An interruption is no error; what halted the
machine is told. -/
def farewell : Outcome Mishap → Answer
  | .ok r =>
    { exit := .ok r.exitCode
      errorOutput := match r.fault with
        | some h => "Emulation stopped: " ++ h.message ++ "\n"
        | none => "" }
  | .error .interrupted => { exit := .ok 0, output := "\nExiting.\n" }
  | .error e => { exit := .error (.frontend e) }

/-- The lines of a log. -/
def lines (log : Log) : String := String.join (log.entries.toList.map fun n => n.line ++ "\n")

/-- The whole program after its preparation: what it prints from then on, and how it
leaves.  It gives no answer if the run does not end in time. -/
def Session.answer? {ω : Type} (host : Host ω Mishap) (fuel : Nat) (s : Session) (w : ω) :
    Option Answer :=
  let (outcome, _, log) := s.play host fuel w
  outcome.map fun o =>
    let answer := farewell o
    let last := Log.record { threshold := log.threshold } (farewellNotices o)
    { answer with errorOutput := lines log ++ answer.errorOutput ++ lines last }

end ChipEight.Command
