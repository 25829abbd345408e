/-
The arguments of a command line, told apart.

An argument is a switch, a value, or the separator `--`, behind which there are only
values.  A switch may be shortened as long as one switch alone begins with it, and may
carry its value behind an equals sign:

    --scale   --sc   --scale=3   --sc=3.

What begins with a hyphen is nevertheless a value if it is the hyphen alone, a negative number, or
contains a space.
-/
import ChipEight.Text.Digit

namespace ChipEight.CommandLine

/-- The switches of the program. -/
inductive Switch
  | help
  | scale
  | clock
  | tone
  | keyWait
  | threaded
  | logLevel
  deriving DecidableEq, Repr

namespace Switch

def all : List Switch := [help, scale, clock, tone, keyWait, threaded, logLevel]

/-- The long name of a switch. -/
def name : Switch → String
  | help => "--help"
  | scale => "--scale"
  | clock => "--clock"
  | tone => "--tone"
  | keyWait => "--key-wait"
  | threaded => "--threaded"
  | logLevel => "--log-level"

/-- All names of a switch, as they are given in messages. -/
def label : Switch → String
  | help => "-h/--help"
  | s => s.name

/-- The switch with a name. -/
def ofName? (s : String) : Option Switch :=
  if s = "-h" then some help else all.find? fun w => w.name == s

end Switch

/-- What an argument gives along with the switch it names. -/
inductive Given
  | nothing
  /-- text behind a long name and an equals sign -/
  | assigned (text : String)
  /-- text behind a switch of one letter, with or without an equals sign between them -/
  | attached (text : String)
  deriving DecidableEq, Repr

inductive Token
  | value (text : String)
  | separator
  | switch (s : Switch) (given : Given)
  | unknown (text : String)
  deriving DecidableEq, Repr

/-- A shortened switch that may stand for several. -/
structure Ambiguity where
  argument : String
  candidates : List Switch
  deriving DecidableEq, Repr

/-! ### Reading one argument -/

/-- Cut an argument at its first equals sign. -/
def cutAtEquals (argument : String) : String × Given :=
  let cs := argument.toList
  match cs.dropWhile (· ≠ '='), cs.takeWhile (· ≠ '=') with
  | [], _ => (argument, .nothing)
  | _ :: text, ['-', letter] => (String.ofList ['-', letter], .attached (String.ofList text))
  | _ :: text, name => (String.ofList name, .assigned (String.ofList text))

/-- Whether an argument is a negative number: digits, of which a last group may stand behind
a point.  A line feed at the end does not count. -/
def isNegativeNumber (argument : String) : Bool :=
  match argument.toList with
  | '-' :: cs =>
    let cs := if cs.getLast? = some '\n' then cs.dropLast else cs
    match cs.dropWhile Text.isDigit with
    | [] => cs ≠ []
    | '.' :: fraction => fraction ≠ [] && fraction.all Text.isDigit
    | _ => false
  | _ => false

/-- The switches that an argument may stand for, if it is the beginning of their
name, and what it gives along with them. -/
def abbreviated (argument : String) : List (Switch × Given) :=
  match argument.toList with
  | '-' :: '-' :: _ =>
    let (start, given) := cutAtEquals argument
    (Switch.all.filter fun s => start.toList.isPrefixOf s.name.toList).map fun s => (s, given)
  | '-' :: 'h' :: text => [(.help, .attached (String.ofList text))]
  | _ => []

/-- Tell what one argument is that stands before the separator. -/
def Token.ofArgument (argument : String) : Except Ambiguity Token :=
  if argument.toList.head? ≠ some '-' then .ok (.value argument)
  else if let some s := Switch.ofName? argument then .ok (.switch s .nothing)
  else if argument = "-" then .ok (.value argument)
  else
    match Switch.ofName? (cutAtEquals argument).1 with
    | some s => .ok (.switch s (cutAtEquals argument).2)
    | none =>
      match abbreviated argument with
      | [(s, given)] => .ok (.switch s given)
      | [] =>
        if isNegativeNumber argument || argument.toList.contains ' ' then .ok (.value argument)
        else .ok (.unknown argument)
      | candidates => .error ⟨argument, candidates.map (·.1)⟩

/-- Tell what the arguments of a command line are. -/
def tokens : List String → Except Ambiguity (List Token)
  | [] => .ok []
  | "--" :: rest => .ok (.separator :: rest.map .value)
  | argument :: rest => do
    let t ← Token.ofArgument argument
    return t :: (← tokens rest)

end ChipEight.CommandLine
