/-
The full notation of an instruction: the name of its kind and its operands by
name, as in

    LoadByte(register=10, value=60)        Return().

Beside the assembler text, which shares mnemonics between kinds, this notation
names every kind apart.  `ofNotation?` reads it back from a name and the
operands in order.  A kind that is not known yet is an open entry, written `Instruction()`
in this notation and `???` in a listing.
-/
import ChipEight.Instruction

namespace ChipEight

namespace Instruction

/-- The name of the kind. -/
def kind : Instruction → String
  | clear => "ClearScreen"
  | ret => "Return"
  | sys _ => "Sys"
  | jump _ => "Jump"
  | call _ => "Call"
  | jumpOffset _ => "JumpBase"
  | skipEqualByte .. => "SkipEqualsByte"
  | skipUnequalByte .. => "SkipNotEqualsByte"
  | skipEqual .. => "SkipEqualsRegister"
  | skipUnequal .. => "SkipNotEqualsRegister"
  | loadByte .. => "LoadByte"
  | addByte .. => "AddByte"
  | copy .. => "LoadRegister"
  | or .. => "Or"
  | and .. => "And"
  | xor .. => "Xor"
  | add .. => "AddRegister"
  | sub .. => "SubRegister"
  | shiftRight _ => "ShiftRight"
  | subFrom .. => "SubNRegister"
  | shiftLeft _ => "ShiftLeft"
  | loadIndex _ => "LoadImmediate"
  | random .. => "Random"
  | draw .. => "DisplaySprite"
  | skipHeld _ => "SkipKeyPress"
  | skipReleased _ => "SkipNotKeyPress"
  | awaitKey _ => "LoadKeyPress"
  | readDelay _ => "LoadFromDelay"
  | setDelay _ => "LoadDelay"
  | setSound _ => "LoadSound"
  | addIndex _ => "AddI"
  | glyph _ => "LoadFontSprite"
  | decimal _ => "LoadBCD"
  | store _ => "StoreRegisters"
  | load _ => "LoadRegisters"

/-- The operands with their names, in order. -/
def fields : Instruction → List (String × Int)
  | clear | ret => []
  | sys a | jump a | call a | jumpOffset a | loadIndex a => [("address", a)]
  | skipEqualByte r k | skipUnequalByte r k | loadByte r k | addByte r k =>
    [("register", r), ("value", k)]
  | random r k => [("register", r), ("mask", k)]
  | skipEqual x y | skipUnequal x y | copy x y | or x y | and x y | xor x y
  | add x y | sub x y | subFrom x y => [("x", x), ("y", y)]
  | draw x y n => [("x", x), ("y", y), ("height", n)]
  | shiftRight r | shiftLeft r | skipHeld r | skipReleased r | awaitKey r
  | readDelay r | setDelay r | setSound r | addIndex r | glyph r | decimal r
  | store r | load r => [("register", r)]

/-- The instruction of a kind with the given operands, if they are as many as
the kind takes. -/
def ofNotation? : String → List Int → Option Instruction
  | "ClearScreen", [] => clear
  | "Return", [] => ret
  | "Sys", [a] => sys a
  | "Jump", [a] => jump a
  | "Call", [a] => call a
  | "JumpBase", [a] => jumpOffset a
  | "SkipEqualsByte", [r, k] => skipEqualByte r k
  | "SkipNotEqualsByte", [r, k] => skipUnequalByte r k
  | "SkipEqualsRegister", [x, y] => skipEqual x y
  | "SkipNotEqualsRegister", [x, y] => skipUnequal x y
  | "LoadByte", [r, k] => loadByte r k
  | "AddByte", [r, k] => addByte r k
  | "LoadRegister", [x, y] => copy x y
  | "Or", [x, y] => or x y
  | "And", [x, y] => and x y
  | "Xor", [x, y] => xor x y
  | "AddRegister", [x, y] => add x y
  | "SubRegister", [x, y] => sub x y
  | "ShiftRight", [r] => shiftRight r
  | "SubNRegister", [x, y] => subFrom x y
  | "ShiftLeft", [r] => shiftLeft r
  | "LoadImmediate", [a] => loadIndex a
  | "Random", [r, k] => random r k
  | "DisplaySprite", [x, y, n] => draw x y n
  | "SkipKeyPress", [r] => skipHeld r
  | "SkipNotKeyPress", [r] => skipReleased r
  | "LoadKeyPress", [r] => awaitKey r
  | "LoadFromDelay", [r] => readDelay r
  | "LoadDelay", [r] => setDelay r
  | "LoadSound", [r] => setSound r
  | "AddI", [r] => addIndex r
  | "LoadFontSprite", [r] => glyph r
  | "LoadBCD", [r] => decimal r
  | "StoreRegisters", [r] => store r
  | "LoadRegisters", [r] => load r
  | _, _ => none

/-- The kind and, in brackets, the operands by name. -/
def inFull (i : Instruction) : String :=
  i.kind ++ "(" ++ ", ".intercalate (i.fields.map fun f => f.1 ++ "=" ++ toString f.2) ++ ")"

end Instruction

/-! ### Open entries -/

/-- An entry of a listing: an instruction, or a place left open. -/
abbrev Entry := Option Instruction

namespace Entry

def kind : Entry → String
  | some i => i.kind
  | none => "Instruction"

def fields : Entry → List (String × Int)
  | some i => i.fields
  | none => []

def mnemonic : Entry → String
  | some i => i.mnemonic
  | none => "???"

def text : Entry → String
  | some i => i.text
  | none => "???"

def inFull : Entry → String
  | some i => i.inFull
  | none => "Instruction()"

/-- What is said when an open entry is to be executed. -/
def openMessage : String := "<class 'chipemu.instructions.Instruction'>"

/-- The entry with a name and operands; an open entry takes none. -/
def ofNotation? : String → List Int → Option Entry
  | "Instruction", [] => some none
  | name, operands => (Instruction.ofNotation? name operands).map some

end Entry

end ChipEight
