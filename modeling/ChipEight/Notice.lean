/-
Notices: what the parts of the emulator report while they work.

A notice is data.  Its level, the part it comes from and its wording are
functions of it, and which notices an operation gives rise to is a function of the state before
it.  So the operations themselves neither write nor carry a log, and a notice below the
threshold of a log is never put into words.
-/
import ChipEight.Instruction.Notation
import ChipEight.Machine.Tick

namespace ChipEight

inductive Level
  | debug
  | info
  | warning
  | error
  deriving DecidableEq, Repr

namespace Level

def name : Level → String
  | debug => "DEBUG"
  | info => "INFO"
  | warning => "WARNING"
  | error => "ERROR"

/-- All levels, the least grave first. -/
def all : List Level := [debug, info, warning, error]

def rank : Level → Nat
  | debug => 10
  | info => 20
  | warning => 30
  | error => 40

def ofName? (s : String) : Option Level := all.find? fun l => l.name == s

end Level

/-- Something worth reporting. -/
inductive Notice
  | programRead (size : Nat) (path : String)
  | programCut (size : Nat)
  | programLoaded (size : Nat)
  | executing (pc word : Int) (i : Instruction)
  /-- an open entry stands in the place of an instruction -/
  | openEntry (pc word : Int)
  | unknownWord (e : UnknownWord) (pc : Int)
  | passedOver (i : Instruction) (e : DrawFault) (pc : Int)
  | stalled (timer : String) (stall : Int)
  | quitRequested (cycles : Nat)
  | halted (h : Halt) (m : Machine)
  | workerStarted
  | soundless (cause : String)
  | stopped (reason : String) (cycles : Nat)

namespace Notice

def level : Notice → Level
  | programRead .. | programLoaded _ | executing .. | openEntry .. | stalled ..
  | workerStarted => .debug
  | quitRequested _ | stopped .. => .info
  | programCut _ | unknownWord .. | passedOver .. | soundless _ => .warning
  | halted .. => .error

/-- The part of the program that reports. -/
def source : Notice → String
  | programRead .. => "chipemu.rom"
  | programCut _ | programLoaded _ | executing .. | openEntry .. | unknownWord ..
  | passedOver .. => "chipemu.machine"
  | stalled .. => "chipemu.timers"
  | quitRequested _ | halted .. => "chipemu.runner"
  | workerStarted => "chipemu.threaded"
  | soundless _ => "chipemu.frontend"
  | stopped .. => "chipemu.cli"

def text : Notice → String
  | programRead size path => "Read " ++ toString size ++ " bytes from " ++ path
  | programCut size =>
    "ROM is " ++ toString size ++ " bytes, truncating to " ++ toString programRoom
  | programLoaded size => "Loaded " ++ toString size ++ " ROM bytes at " ++ hex 3 programStart
  | executing pc word i => "PC " ++ hex 3 pc ++ ": " ++ hex 4 word ++ " " ++ i.text
  | openEntry pc word => "PC " ++ hex 3 pc ++ ": " ++ hex 4 word ++ " " ++ Entry.text none
  | unknownWord e pc => e.message ++ " at PC " ++ hex 3 pc ++ ", skipping"
  | passedOver i e pc =>
    i.mnemonic ++ ": " ++ e.message ++ " at PC " ++ hex 3 pc ++ ", skipping"
  | stalled timer stall =>
    timer ++ " timer resynced after " ++ toString stall ++ " ns stall"
  | quitRequested cycles => "Quit requested after " ++ toString cycles ++ " cycles"
  | halted h m => "Halting: " ++ h.message ++ " (" ++ m.text ++ ")"
  | workerStarted => "Machine running on thread chipemu-machine"
  | soundless cause => "Audio disabled: " ++ cause
  | stopped reason cycles => "Stopped (" ++ reason ++ ") after " ++ toString cycles ++ " cycles"

/-- The notice as a line of a log. -/
def line (n : Notice) : String := n.level.name ++ " " ++ n.source ++ ": " ++ n.text

end Notice

/-- The notices at or above a threshold, in the order in which they were given. -/
structure Log where
  threshold : Level
  entries : Array Notice := #[]

namespace Log

/-- Note what reaches the threshold. -/
def record (log : Log) (ns : List Notice) : Log :=
  { log with
    entries := ns.foldl (fun es n => if log.threshold.rank ≤ n.level.rank then es.push n else es)
      log.entries }

end Log

/-! ### What the operations report -/

namespace Countdown

/-- What a check at `now` of the countdown called `name` reports. -/
def checkNotices (name : String) (period now : Int) (c : Countdown) : List Notice :=
  (c.stall? period now).toList.map (.stalled name)

end Countdown

namespace Timers

def checkNotices (now : Int) (t : Timers) : List Notice :=
  t.delay.checkNotices "delay" t.period now ++ t.sound.checkNotices "sound" t.period now

end Timers

namespace Machine

def loadNotices (program : Array UInt8) : List Notice :=
  (if programRoom < program.size then [.programCut program.size] else [])
    ++ [.programLoaded (loadedSize program)]

/-- What one tick with the given decoder reports. -/
def tickNotices (decoder : Int → Except UnknownWord Instruction) (m : Machine) : List Notice :=
  match m.fetch? with
  | none => []
  | some word =>
    match decoder word with
    | .error e => [.unknownWord e m.pc]
    | .ok i =>
      .executing m.pc word i ::
        match (m.execute i).1 with
        | some (.sprite e) => [.passedOver i e m.pc]
        | _ => []

end Machine

end ChipEight
