/-
The program for a terminal.

Pictures are printed as text and the beep is the terminal's bell.  A terminal does not
tell which keys are held down, so none are; the program is left by an interrupt.
-/
import ChipEight.Command
import ChipEight.Host.Relay

namespace ChipEight.Terminal

/-- The number of the error of reading a directory. -/
def directoryCode : UInt32 := 21

/-- Read a file of the real world. -/
def readFile (path : String) : IO (Except FileError (Array UInt8)) := do
  try
    return .ok (← IO.FS.readBinFile path).data
  catch
    | .noFileOrDirectory .. => return .error .notFound
    | .inappropriateType _ code _ =>
      return .error (if code = directoryCode then .isDirectory else .notDirectory)
    | .permissionDenied .. => return .error .permissionDenied
    | .invalidArgument .. => return .error .nameTooLong
    | e => throw e

/-- A whole number of milliseconds, not shorter than `delay` nanoseconds. -/
def milliseconds (delay : Int) : UInt32 := UInt32.ofNat ((delay.toNat + 999999) / 1000000)

def fulfil : Request → IO Unit
  | .sleep delay => IO.sleep (milliseconds delay)
  | .render p => do
    IO.print ("\x1b[H" ++ p.text ++ "\n")
    (← IO.getStdout).flush
  | .setTone on => if on then IO.print "\x07" else pure ()

def report (threshold : Level) (notices : List Notice) : IO Unit :=
  IO.eprint (Command.lines (Log.record { threshold := threshold } notices))

/-- Take steps until there is an outcome. -/
partial def drive {σ : Type} (advance : σ → Relay → σ × Relay) (notices : σ → σ → List Notice)
    (outcome? : σ → Option (Outcome Mishap)) (threshold : Level) (s : σ) :
    IO (Outcome Mishap) := do
  match outcome? s with
  | some o => return o
  | none =>
    let (next, relay) := advance s { reading := (← IO.monoNanosNow) }
    report threshold (notices s next)
    relay.requests.forM fulfil
    drive advance notices outcome? threshold next

def play (s : Command.Session) : IO (Outcome Mishap) := do
  let threshold := s.log.threshold
  report threshold s.log.entries.toList
  if s.config.threaded then
    report threshold Threads.startNotices
    drive (Lockstep.advance Relay.host) Lockstep.notices Lockstep.outcome? threshold
      (Lockstep.start s.run (some Lockstep.patience))
  else drive (Run.advance Relay.host) Run.notices Run.outcome? threshold s.run

/-- Print an answer and give its exit code. -/
def finish (a : Command.Answer) : IO UInt32 := do
  IO.print a.output
  IO.eprint a.errorOutput
  match a.exit with
  | .ok n => return UInt32.ofNat n
  | .error crash =>
    IO.eprintln crash.message
    return 1

def run (arguments : List String) : IO UInt32 := do
  let content ← match CommandLine.parse arguments with
    | .ok options => readFile options.program
    | .error _ => pure (.error .notFound)
  let dice := Dice.seeded (UInt64.ofNat (← IO.monoNanosNow))
  match Command.prepare (fun _ => content) dice arguments with
  | .error refusal => finish refusal.answer
  | .ok session =>
    let outcome ← play session
    let code ← finish (Command.farewell outcome)
    report session.log.threshold (Command.farewellNotices outcome)
    return code

end ChipEight.Terminal

def main (arguments : List String) : IO UInt32 := ChipEight.Terminal.run arguments
