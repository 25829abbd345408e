/-
One tick: fetch, decode, execute, move on.

A word that is no instruction, and a sprite that is too tall, are passed over.  A
program counter without a whole word under it, and a fault of the stack, halt the
machine: the tick is refused.  So does a register that does not exist, which no decoded word
names.
-/
import ChipEight.Instruction.Decode
import ChipEight.Machine.Execute

namespace ChipEight

/-- Why the machine cannot go on. -/
inductive Halt
  | outOfBounds (pc : Int)
  | stack (fault : StackFault)
  | register (fault : RegisterFault)
  deriving DecidableEq, Repr

def Halt.message : Halt → String
  | outOfBounds pc => "PC out of bounds: " ++ hex 4 pc
  | stack fault => fault.message
  | register fault => fault.message

namespace Machine

/-- The end of a tick that executed an instruction. -/
def settle (m : Machine) : Machine :=
  if m.hold then { m with hold := false } else m.advance

/-- One tick with a given decoder: the instruction that was executed or passed over, if the word is
one, or what halts the machine; and the machine after it. -/
def tickWith (decoder : Int → Except UnknownWord Instruction) (m : Machine) :
    Except Halt (Option Instruction) × Machine :=
  match m.fetch? with
  | none => (.error (.outOfBounds m.pc), m)
  | some word =>
    match decoder word with
    | .error _ => (.ok none, m.advance)
    | .ok i =>
      match m.execute i with
      | (some (.stack fault), m) => (.error (.stack fault), m)
      | (some (.register fault), m) => (.error (.register fault), m)
      | (some (.sprite _), m) => (.ok (some i), m.settle)
      | (none, m) => (.ok (some i), m.settle)

/-- One tick of the machine. -/
def tick (m : Machine) : Except Halt (Option Instruction) × Machine :=
  m.tickWith Instruction.decode

end Machine

end ChipEight
