/-
What each instruction does.

`Machine.execute` applies one instruction.  Only three can be refused: a return
with an empty stack, a call with a full one, and a sprite that cannot be drawn.  The refusal
comes back beside the machine it leaves.  An instruction that was not decoded may also name a
register that does not exist; it stops where it first uses it.

The program counter still stands at the instruction while it executes.  A skip moves it
by one word, in addition to the move at the end of the tick; a jump sets it and
raises `hold`, so that the tick leaves it there.  Instructions with a flag write the
result first and the flag last, so register `F` ends up as the flag.
-/
import ChipEight.Instruction
import ChipEight.Machine

namespace ChipEight

/-- A use of a register that does not exist. -/
inductive RegisterFault
  | read
  | write
  /-- the number of the register is no word of 64 bits -/
  | noWord
  deriving DecidableEq, Repr

def RegisterFault.message : RegisterFault → String
  | read => "list index out of range"
  | write => "list assignment index out of range"
  | noWord => LongWord.indexRefusal

/-- Why an instruction is refused. -/
inductive Fault
  | stack (fault : StackFault)
  | sprite (fault : DrawFault)
  | register (fault : RegisterFault)
  deriving DecidableEq, Repr

def Fault.message : Fault → String
  | stack fault => fault.message
  | sprite fault => fault.message
  | register fault => fault.message

/-! ### Registers that do not exist -/

/-- A use of a register. -/
inductive RegisterUse
  | read (x : Int)
  | write (x : Int)
  deriving DecidableEq, Repr

namespace RegisterUse

/-- What is wrong with the use of register `x`, if it does not exist.  Negative numbers count the
registers from the last one back. -/
def faultAt? (x : Int) (fault : RegisterFault) : Option RegisterFault :=
  if -16 ≤ x ∧ x < 16 then none
  else if LongWord.fits x then some fault
  else some .noWord

/-- What is wrong with a use of a register, if anything. -/
def fault? : RegisterUse → Option RegisterFault
  | read x => faultAt? x .read
  | write x => faultAt? x .write

end RegisterUse

namespace Instruction

/-- The registers that an instruction names, in the order in which it first uses them.  Of a
block of registers the last stands for all, or the first that does not exist. -/
def registerUses : Instruction → List RegisterUse
  | clear | ret | sys _ | jump _ | call _ | jumpOffset _ | loadIndex _ => []
  | skipEqualByte x _ | skipUnequalByte x _ | addByte x _ | shiftRight x | shiftLeft x
  | skipHeld x | skipReleased x | setDelay x | setSound x | addIndex x | glyph x
  | decimal x => [.read x]
  | skipEqual x y | skipUnequal x y | or x y | and x y | xor x y | add x y | sub x y
  | subFrom x y | draw x y _ => [.read x, .read y]
  | copy x y => [.read y, .write x]
  | loadByte x _ | random x _ | awaitKey x | readDelay x => [.write x]
  | store x => [.read (min 16 (max 0 x))]
  | load x => [.write (min 16 (max 0 x))]

/-- How an instruction first uses a register that does not exist, if it does. -/
def registerFault? (i : Instruction) : Option RegisterFault :=
  i.registerUses.findSome? RegisterUse.fault?

end Instruction

namespace Machine

/-! ### Patterns that instructions share -/

/-- Go to `address` and stay there at the end of the tick. -/
def jumpTo (m : Machine) (address : Int) : Machine := { m with pc := address, hold := true }

/-- Skip one word if `condition` holds. -/
def skipIf (m : Machine) (condition : Bool) : Machine := if condition then m.advance else m

/-- Set register `x`, then the flag. -/
def setWithFlag (m : Machine) (x value : Int) (raised : Bool) : Machine :=
  (m.setReg x value).setReg flag (if raised then 1 else 0)

/-- The rows of a sprite, read from the index on. -/
def spriteAt (m : Machine) (height : Nat) : List UInt8 :=
  (List.range height).map fun k => m.memory[m.cell k]

/-- Store the first `count` registers from the index on. -/
def storeRegisters (m : Machine) (count : Nat) : Machine :=
  { m with
    memory := (List.range count).foldl
      (fun mem (k : Nat) => mem.set (m.cell k) m.registers[slot k]) m.memory }

/-- Load the first `count` registers from the index on. -/
def loadRegisters (m : Machine) (count : Nat) : Machine :=
  { m with
    registers := (List.range count).foldl
      (fun regs (k : Nat) => regs.set (slot k) m.memory[m.cell k]) m.registers }

/-- Store the three decimal digits of register `x` from the index on. -/
def storeDecimal (m : Machine) (x : Int) : Machine :=
  let v := (m.reg x).toNat
  { m with
    memory := ((m.memory.set (m.cell 0) (UInt8.ofNat (v / 100))).set
      (m.cell 1) (UInt8.ofNat (v / 10 % 10))).set (m.cell 2) (UInt8.ofNat (v % 10)) }

/-! ### The instructions -/

/-- Execution of one instruction whose registers exist: the refusal, if there is one, and the
machine after it. -/
def perform (i : Instruction) (m : Machine) : Option Fault × Machine :=
  match i with
  | .clear => (none, { m with screen := m.screen.clear })
  | .ret =>
    match m.stack.pop with
    | (.ok address, stack) => (none, { m with stack }.jumpTo address)
    | (.error fault, stack) => (some (.stack fault), { m with stack })
  | .sys _ => (none, m)
  | .jump address => (none, m.jumpTo address)
  | .call address =>
    match m.stack.push ((m.pc + 2) % 0x10000) with
    | (.ok (), stack) => (none, { m with stack }.jumpTo address)
    | (.error fault, stack) => (some (.stack fault), { m with stack })
  | .jumpOffset address => (none, m.jumpTo ((address + m.reg 0) % 0x10000))
  | .skipEqualByte x k => (none, m.skipIf (m.reg x = k))
  | .skipUnequalByte x k => (none, m.skipIf (m.reg x ≠ k))
  | .skipEqual x y => (none, m.skipIf (m.reg x = m.reg y))
  | .skipUnequal x y => (none, m.skipIf (m.reg x ≠ m.reg y))
  | .loadByte x k => (none, m.setReg x k)
  | .addByte x k =>
    let total := m.reg x + k
    (none, if m.dialect.addByteSetsFlag then m.setWithFlag x total (0xFF < total)
      else m.setReg x total)
  | .copy x y => (none, m.setReg x (m.reg y))
  | .or x y => (none, m.setReg x ((m.reg x).toNat ||| (m.reg y).toNat : Nat))
  | .and x y => (none, m.setReg x ((m.reg x).toNat &&& (m.reg y).toNat : Nat))
  | .xor x y => (none, m.setReg x ((m.reg x).toNat ^^^ (m.reg y).toNat : Nat))
  | .add x y =>
    let total := m.reg x + m.reg y
    (none, m.setWithFlag x total (0xFF < total))
  | .sub x y => (none, m.setWithFlag x (m.reg x - m.reg y) (m.reg y ≤ m.reg x))
  | .subFrom x y => (none, m.setWithFlag x (m.reg y - m.reg x) (m.reg x ≤ m.reg y))
  | .shiftRight x => (none, m.setWithFlag x (m.reg x / 2) (m.reg x % 2 = 1))
  | .shiftLeft x => (none, m.setWithFlag x (m.reg x * 2) (0x80 ≤ m.reg x))
  | .random x mask =>
    let (byte, dice) := m.dice.roll
    (none, { m with dice }.setReg x (byte &&& UInt8.ofInt mask).toNat)
  | .loadIndex address => (none, { m with index := address })
  | .addIndex x =>
    let total := m.index + m.reg x
    (none, { m with index := total % 0x10000 }.setReg flag (if 0xFFFF < total then 1 else 0))
  | .glyph x => (none, { m with index := m.reg x * 5 })
  | .decimal x => (none, m.storeDecimal x)
  | .store x => (none, m.storeRegisters (x + 1).toNat)
  | .load x => (none, m.loadRegisters (x + 1).toNat)
  | .draw x y height =>
    match m.screen.draw (m.reg x) (m.reg y) (m.spriteAt height.toNat) with
    | (.ok met, screen) => (none, { m with screen }.setReg flag (if met then 1 else 0))
    | (.error fault, screen) => (some (.sprite fault), { m with screen })
  | .skipHeld x => (none, m.skipIf (m.keys.isHeld (m.reg x)))
  | .skipReleased x => (none, m.skipIf (!m.keys.isHeld (m.reg x)))
  | .awaitKey x =>
    match m.keys.choose? m.dialect.keyChoice with
    | none => (none, { m with hold := true })
    | some key => (none, m.setReg x key)
  | .readDelay x => (none, m.setReg x m.timers.delay.value.toNat)
  | .setDelay x => (none, { m with timers := { m.timers with delay := .load (m.reg x) } })
  | .setSound x => (none, { m with timers := { m.timers with sound := .load (m.reg x) } })

/-- What an instruction has done by the time it uses a register that does not exist. -/
def attempt (i : Instruction) (m : Machine) : Machine :=
  match i with
  | .random .. => { m with dice := m.dice.roll.2 }
  | .store _ => m.storeRegisters 16
  | .load _ => m.loadRegisters 16
  | _ => m

/-- Whether an instruction waits for a key. -/
def waits (i : Instruction) (m : Machine) : Bool :=
  i matches .awaitKey _ && (m.keys.choose? m.dialect.keyChoice).isNone

/-- Execution of one instruction, outside a tick: the refusal, if there is one, and the machine
after it.  An instruction that waits for a key uses no register. -/
def execute (i : Instruction) (m : Machine) : Option Fault × Machine :=
  match i.registerFault? with
  | none => m.perform i
  | some fault => if m.waits i then m.perform i else (some (.register fault), m.attempt i)

end Machine

end ChipEight
