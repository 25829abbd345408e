/-
The instructions of the computer, and their assembler text.

There are thirty-five instructions.  Each carries its operands as integers:
the decoder only produces operands that fit their field, but an instruction can be
written down, compared and printed with any operands.

The text of an instruction is a mnemonic and a list of operands,

    DRW V1, V2, 5        LD [I], VA        JP V0, 0x2F0,

and the shape of an operand (`V` and a digit, `0x` and three digits, `0x` and
two digits, a plain number, a name) tells apart the instructions that share a
mnemonic.
-/
import ChipEight.Text.Hex

namespace ChipEight

/-- An instruction with its operands. -/
inductive Instruction
  /-- darken the screen -/
  | clear
  /-- return from a subroutine -/
  | ret
  /-- call a routine of the host machine; ignored -/
  | sys (address : Int)
  | jump (address : Int)
  | call (address : Int)
  /-- jump to `address` plus register 0 -/
  | jumpOffset (address : Int)
  | skipEqualByte (register value : Int)
  | skipUnequalByte (register value : Int)
  | skipEqual (x y : Int)
  | skipUnequal (x y : Int)
  | loadByte (register value : Int)
  | addByte (register value : Int)
  | copy (x y : Int)
  | or (x y : Int)
  | and (x y : Int)
  | xor (x y : Int)
  | add (x y : Int)
  /-- take register `y` from register `x` -/
  | sub (x y : Int)
  | shiftRight (register : Int)
  /-- put the difference of registers `y` and `x` into `x` -/
  | subFrom (x y : Int)
  | shiftLeft (register : Int)
  | loadIndex (address : Int)
  | random (register mask : Int)
  | draw (x y height : Int)
  | skipHeld (register : Int)
  | skipReleased (register : Int)
  /-- wait for a key and keep its number -/
  | awaitKey (register : Int)
  | readDelay (register : Int)
  | setDelay (register : Int)
  | setSound (register : Int)
  | addIndex (register : Int)
  /-- point the index at the glyph of a digit -/
  | glyph (register : Int)
  /-- store the three decimal digits of a register -/
  | decimal (register : Int)
  /-- store registers 0 to `register` -/
  | store (register : Int)
  /-- load registers 0 to `register` -/
  | load (register : Int)
  deriving DecidableEq, Repr

/-! ### Operands -/

/-- An operand as it is printed. -/
inductive Operand
  | register (number : Int)
  | address (value : Int)
  | byte (value : Int)
  | count (value : Int)
  | named (name : String)
  deriving DecidableEq, Repr

/-- Registers are a `V` and a number, addresses have three hexadecimal digits,
bytes two, and sprite heights are decimal. -/
def Operand.text : Operand → String
  | register number => "V" ++ hex 1 number
  | address value => "0x" ++ hex 3 value
  | byte value => "0x" ++ hex 2 value
  | count value => toString value
  | named name => name

namespace Instruction

def mnemonic : Instruction → String
  | clear => "CLS"
  | ret => "RET"
  | sys _ => "SYS"
  | jump _ | jumpOffset _ => "JP"
  | call _ => "CALL"
  | skipEqualByte .. | skipEqual .. => "SE"
  | skipUnequalByte .. | skipUnequal .. => "SNE"
  | loadByte .. | copy .. | loadIndex _ | readDelay _ | awaitKey _ | setDelay _
  | setSound _ | glyph _ | decimal _ | store _ | load _ => "LD"
  | addByte .. | add .. | addIndex _ => "ADD"
  | or .. => "OR"
  | and .. => "AND"
  | xor .. => "XOR"
  | sub .. => "SUB"
  | shiftRight _ => "SHR"
  | subFrom .. => "SUBN"
  | shiftLeft _ => "SHL"
  | random .. => "RND"
  | draw .. => "DRW"
  | skipHeld _ => "SKP"
  | skipReleased _ => "SKNP"

/-- The operands in the order in which they are printed. -/
def operands : Instruction → List Operand
  | clear | ret => []
  | sys a | jump a | call a => [.address a]
  | jumpOffset a => [.named "V0", .address a]
  | skipEqualByte r k | skipUnequalByte r k | loadByte r k | addByte r k
  | random r k => [.register r, .byte k]
  | skipEqual x y | skipUnequal x y | copy x y | or x y | and x y | xor x y
  | add x y | sub x y | subFrom x y => [.register x, .register y]
  | shiftRight r | shiftLeft r | skipHeld r | skipReleased r => [.register r]
  | loadIndex a => [.named "I", .address a]
  | draw x y n => [.register x, .register y, .count n]
  | readDelay r => [.register r, .named "DT"]
  | awaitKey r => [.register r, .named "K"]
  | setDelay r => [.named "DT", .register r]
  | setSound r => [.named "ST", .register r]
  | addIndex r => [.named "I", .register r]
  | glyph r => [.named "F", .register r]
  | decimal r => [.named "B", .register r]
  | store r => [.named "[I]", .register r]
  | load r => [.register r, .named "[I]"]

/-- The assembler text: the mnemonic, and the operands separated by commas. -/
def text (i : Instruction) : String :=
  match i.operands with
  | [] => i.mnemonic
  | os => i.mnemonic ++ " " ++ ", ".intercalate (os.map Operand.text)

end Instruction

end ChipEight
