/-
Decoding: from a word to an instruction.

The leading digit picks a group; the groups `0`, `8`, `E` and `F` look further,
at the last digit or the last two.  A selector is never compared outside its
group.  What no group knows, and every integer that is not a word, is refused.
-/
import ChipEight.Word
import ChipEight.Instruction

namespace ChipEight

instance decidableEqExcept {ε α : Type} [DecidableEq ε] [DecidableEq α] :
    DecidableEq (Except ε α)
  | .ok a, .ok b => decidable_of_iff (a = b) (by simp)
  | .error a, .error b => decidable_of_iff (a = b) (by simp)
  | .ok _, .error _ | .error _, .ok _ => isFalse nofun

/-- A word that no instruction has. -/
structure UnknownWord where
  word : Int
  deriving DecidableEq, Repr

def UnknownWord.message (e : UnknownWord) : String :=
  "Unknown opcode: " ++ hex 4 e.word

namespace Instruction

/-! ### The groups that look further -/

/-- Group `0`: two instructions without operands, and calls of the host machine. -/
def decodeSystem (w : Int) : Instruction :=
  if Word.x w = 0 ∧ Word.byte w = 0xE0 then clear
  else if Word.x w = 0 ∧ Word.byte w = 0xEE then ret
  else sys (Word.address w)

/-- Group `8`: arithmetic between two registers, selected by the last digit. -/
def decodeArithmetic? (w : Int) : Option Instruction :=
  let x := Word.x w
  let y := Word.y w
  match (Word.digit w).toNat with
  | 0x0 => copy x y
  | 0x1 => or x y
  | 0x2 => and x y
  | 0x3 => xor x y
  | 0x4 => add x y
  | 0x5 => sub x y
  | 0x6 => shiftRight x
  | 0x7 => subFrom x y
  | 0xE => shiftLeft x
  | _ => none

/-- Group `E`: skips on a key, selected by the last two digits. -/
def decodeKey? (w : Int) : Option Instruction :=
  match (Word.byte w).toNat with
  | 0x9E => skipHeld (Word.x w)
  | 0xA1 => skipReleased (Word.x w)
  | _ => none

/-- Group `F`: timers, index and blocks of registers, selected by the last two
digits. -/
def decodeTransfer? (w : Int) : Option Instruction :=
  let x := Word.x w
  match (Word.byte w).toNat with
  | 0x07 => readDelay x
  | 0x0A => awaitKey x
  | 0x15 => setDelay x
  | 0x18 => setSound x
  | 0x1E => addIndex x
  | 0x29 => glyph x
  | 0x33 => decimal x
  | 0x55 => store x
  | 0x65 => load x
  | _ => none

/-! ### All groups -/

/-- The instruction of a word between `0` and `0xFFFF`, by its leading digit. -/
def decodeGroup? (w : Int) : Option Instruction :=
  let x := Word.x w
  let y := Word.y w
  match (Word.group w).toNat with
  | 0x0 => decodeSystem w
  | 0x1 => jump (Word.address w)
  | 0x2 => call (Word.address w)
  | 0x3 => skipEqualByte x (Word.byte w)
  | 0x4 => skipUnequalByte x (Word.byte w)
  | 0x5 => skipEqual x y
  | 0x6 => loadByte x (Word.byte w)
  | 0x7 => addByte x (Word.byte w)
  | 0x8 => decodeArithmetic? w
  | 0x9 => skipUnequal x y
  | 0xA => loadIndex (Word.address w)
  | 0xB => jumpOffset (Word.address w)
  | 0xC => random x (Word.byte w)
  | 0xD => draw x y (Word.digit w)
  | 0xE => decodeKey? w
  | _ => decodeTransfer? w

/-- Decoding: the instruction of a word, or the word itself when it has none. -/
def decode (w : Int) : Except UnknownWord Instruction :=
  if 0 ≤ w ∧ w ≤ 0xFFFF then
    match decodeGroup? w with
    | some i => .ok i
    | none => .error ⟨w⟩
  else .error ⟨w⟩

end Instruction

end ChipEight
