/-
The keypad: sixteen keys, each held down or not.

Keys are named by the integers `0` to `15`, and no other integer is ever held.  The
view of a keypad is `heldKeys`, the held keys in ascending order, and a wait for
a key takes either end of that list.
-/
import ChipEight.LongWord
import ChipEight.Setting
import ChipEight.Text.Hex
import ChipEight.Word

namespace ChipEight

/-- Which key a wait takes when several are held. -/
inductive KeyChoice
  | last
  | lowest
  deriving DecidableEq, Repr

namespace KeyChoice

def name : KeyChoice → String
  | last => "last"
  | lowest => "lowest"

def all : List KeyChoice := [last, lowest]

def ofName? (s : String) : Option KeyChoice := all.find? fun c => c.name == s

end KeyChoice

/-- What is given for a key choice and names none. -/
structure UnknownKeyChoice where
  given : Setting
  deriving DecidableEq, Repr

def UnknownKeyChoice.message (e : UnknownKeyChoice) : String :=
  e.given.shown ++ " is not a valid KeyWaitPolicy"

/-- The key choice that a setting names. -/
def KeyChoice.ofSetting : Setting → Except UnknownKeyChoice KeyChoice
  | .text s =>
    match ofName? s with
    | some c => .ok c
    | none => .error ⟨.text s⟩
  | given => .error ⟨given⟩

/-- Why a keypad cannot be changed as asked. -/
inductive KeypadError
  /-- a key to be pressed does not exist -/
  | noSuchKey (key : Int)
  /-- a list of states has another length than the keypad -/
  | wrongCount (given : Nat)
  deriving DecidableEq, Repr

def KeypadError.message : KeypadError → String
  | noSuchKey key =>
    if LongWord.fits key then "list assignment index out of range" else LongWord.indexRefusal
  | wrongCount given => "expected 16 key states, got " ++ toString given

/-- Sixteen keys, each held or not. -/
structure Keypad where
  held : Vector Bool 16
  deriving DecidableEq, Repr

namespace Keypad

/-- No key is held. -/
def released : Keypad := ⟨.replicate 16 false⟩

/-- Whether the key is held; what names no key is not. -/
def isHeld (p : Keypad) (key : Int) : Bool :=
  if h : 0 ≤ key ∧ key < 16 then p.held[key.toNat] else false

/-- Hold a key down.  A negative number counts the keys from the last one back. -/
def press (p : Keypad) (key : Int) : Except KeypadError Keypad :=
  if -16 ≤ key ∧ key < 16 then
    .ok ⟨p.held.set (Word.digit key).toNat true (Word.digit_lt key)⟩
  else .error (.noSuchKey key)

/-- Press keys one after another.  At the first that does not exist the rest is
dropped, and those before it stay held. -/
def pressAll (p : Keypad) : List Int → Except KeypadError Unit × Keypad
  | [] => (.ok (), p)
  | key :: keys =>
    match p.press key with
    | .ok p => p.pressAll keys
    | .error e => (.error e, p)

/-- The keypad with the given sixteen states. -/
def ofStates (states : List Bool) : Except KeypadError Keypad :=
  if h : states.length = 16 then .ok ⟨⟨states.toArray, by simpa using h⟩⟩
  else .error (.wrongCount states.length)

/-- The held keys in ascending order. -/
def heldKeys (p : Keypad) : List Nat :=
  (List.range 16).filter fun k => p.isHeld k

def anyHeld (p : Keypad) : Bool := !p.heldKeys.isEmpty

/-- The key that a wait takes, if one is held. -/
def choose? (p : Keypad) : KeyChoice → Option Nat
  | .last => p.heldKeys.getLast?
  | .lowest => p.heldKeys.head?

def text (p : Keypad) : String :=
  "KeyboardLatch(pressed=[" ++ ", ".intercalate (p.heldKeys.map fun k : Nat => hex 1 k) ++ "])"

end Keypad

end ChipEight
