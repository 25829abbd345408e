/-
The options of the program, read off its command line.

The tokens are worked off from left to right.  The first value that no switch claims
names the program file, and a separator beside it is dropped.  All else that nobody
claims is collected and complained about in the end.  An error in a switch, and a
request for help, end the reading where they stand.

A separator that is assigned to a switch is dropped too.  It leaves the switch with a blank
in the place of a value, and it is up to the configuration to complain.
-/
import ChipEight.CommandLine.Help
import ChipEight.CommandLine.Token
import ChipEight.Config
import ChipEight.Notice
import ChipEight.Text.Integer

namespace ChipEight

/-- What a command line asks for. -/
structure Options where
  program : String
  scale : Setting := .number 15
  clock : Setting := .number 500
  tone : Setting := .number 440
  /-- `none` if it was left blank -/
  keyChoice : Option KeyChoice := some .last
  threaded : Bool := false
  /-- `none` if it was left blank -/
  logLevel : Option Level := some .warning
  deriving DecidableEq, Repr

/-- The configuration that the options amount to. -/
def Options.config (o : Options) : Except ConfigError Config :=
  match o.keyChoice with
  | none => .error (.unknownKeyChoice ⟨.blank⟩)
  | some keyChoice =>
    Config.ofSettings o.clock (.number 60) (.number 60) o.scale o.tone o.threaded { keyChoice }

namespace CommandLine

/-- What is wrong with a command line. -/
inductive UsageError
  | ambiguous (a : Ambiguity)
  | valueMissing (s : Switch)
  | valueIgnored (s : Switch) (text : String)
  | notInteger (s : Switch) (text : String)
  | noSuchChoice (s : Switch) (text : String) (choices : List String)
  | programMissing
  | unclaimed (arguments : List String)
  deriving DecidableEq, Repr

def UsageError.message : UsageError → String
  | ambiguous a =>
    "ambiguous option: " ++ a.argument ++ " could match "
      ++ ", ".intercalate (a.candidates.map Switch.name)
  | valueMissing s => "argument " ++ s.label ++ ": expected one argument"
  | valueIgnored s text =>
    "argument " ++ s.label ++ ": ignored explicit argument " ++ Text.quoted text
  | notInteger s text => "argument " ++ s.label ++ ": invalid int value: " ++ Text.quoted text
  | noSuchChoice s text choices =>
    "argument " ++ s.label ++ ": invalid choice: " ++ Text.quoted text
      ++ " (choose from " ++ ", ".intercalate (choices.map Text.quoted) ++ ")"
  | programMissing => "the following arguments are required: rom"
  | unclaimed arguments => "unrecognized arguments: " ++ " ".intercalate arguments

/-- Why a command line yields no options. -/
inductive Ending
  | help
  | wrong (e : UsageError)
  deriving DecidableEq, Repr

namespace Ending

def exitCode : Ending → Nat
  | help => 0
  | wrong _ => 2

def output : Ending → String
  | help => CommandLine.help
  | wrong _ => ""

def errorOutput : Ending → String
  | help => ""
  | wrong e => usage ++ "chipemu: error: " ++ e.message ++ "\n"

end Ending

/-! ### Reading tokens -/

/-- What has been read so far. -/
structure Draft where
  program : Option String := none
  unclaimed : List String := []
  options : Options := { program := "" }

namespace Draft

def nameProgram (d : Draft) (path : String) : Draft := { d with program := some path }

def leaveOver (d : Draft) (argument : String) : Draft :=
  { d with unclaimed := d.unclaimed ++ [argument] }

end Draft

/-- The integer that a switch is given. -/
def integerOf (s : Switch) (text : String) : Except Ending Setting :=
  match Text.integer? text with
  | some n => .ok (.number n)
  | none => .error (.wrong (.notInteger s text))

/-- The choice that a switch is given, by its name. -/
def choiceOf {α : Type} (all : List α) (name : α → String) (s : Switch) (text : String) :
    Except Ending (Option α) :=
  match all.find? fun a => name a == text with
  | some a => .ok (some a)
  | none => .error (.wrong (.noSuchChoice s text (all.map name)))

/-- The options with a switch set to a value.  Switches that take no value are
left alone. -/
def assign (s : Switch) (text : String) (o : Options) : Except Ending Options := do
  let blank := text == "--"
  let integer := if blank then .ok .blank else integerOf s text
  match s with
  | .scale => return { o with scale := ← integer }
  | .clock => return { o with clock := ← integer }
  | .tone => return { o with tone := ← integer }
  | .keyWait =>
    let choice := choiceOf KeyChoice.all KeyChoice.name s text
    return { o with keyChoice := ← if blank then .ok none else choice }
  | .logLevel =>
    let choice := choiceOf Level.all Level.name s text
    return { o with logLevel := ← if blank then .ok none else choice }
  | .help | .threaded => return o

/-- What follows from text attached to the one-letter switch for help.  The letter may be
repeated, and nothing else may stand there. -/
def helpAttached (text : List Char) : Ending :=
  match text, text.dropWhile (· = 'h') with
  | _ :: _, [] => .help
  | _, rest => .wrong (.valueIgnored .help (String.ofList rest))

/-- Work off the tokens of a command line. -/
def consume : List Token → Draft → Except Ending Draft
  | [], d => .ok d
  | .value v :: .separator :: rest, d =>
    consume rest (if d.program.isNone then d.nameProgram v else (d.leaveOver v).leaveOver "--")
  | .separator :: .value v :: rest, d =>
    consume rest (if d.program.isNone then d.nameProgram v else (d.leaveOver "--").leaveOver v)
  | .value v :: rest, d =>
    consume rest (if d.program.isNone then d.nameProgram v else d.leaveOver v)
  | .separator :: rest, d => consume rest (d.leaveOver "--")
  | .unknown argument :: rest, d => consume rest (d.leaveOver argument)
  | .switch .help given :: _, _ =>
    match given with
    | .nothing => .error .help
    | .assigned text => .error (.wrong (.valueIgnored .help text))
    | .attached text => .error (helpAttached text.toList)
  | .switch .threaded given :: rest, d =>
    match given with
    | .nothing => consume rest { d with options := { d.options with threaded := true } }
    | .assigned text | .attached text => .error (.wrong (.valueIgnored .threaded text))
  | .switch s (.assigned text) :: rest, d | .switch s (.attached text) :: rest, d => do
    consume rest { d with options := ← assign s text d.options }
  | .switch s .nothing :: .value text :: rest, d => do
    consume rest { d with options := ← assign s text d.options }
  | .switch s .nothing :: _, _ => .error (.wrong (.valueMissing s))

/-- The options, once all is read. -/
def Draft.finish (d : Draft) : Except Ending Options :=
  match d.program, d.unclaimed with
  | none, _ => .error (.wrong .programMissing)
  | some program, [] => .ok { d.options with program }
  | some _, arguments => .error (.wrong (.unclaimed arguments))

/-- The options that a command line gives. -/
def parse (arguments : List String) : Except Ending Options := do
  let ts ← (tokens arguments).mapError fun a => .wrong (.ambiguous a)
  (← consume ts {}).finish

end CommandLine

end ChipEight
