/-
The call stack: a bounded stack of return addresses.

Its slots are never given up: a pop leaves the address in its slot and only
lowers the depth.  What is on the stack is `inUse`, oldest first.  An operation that
is refused leaves the stack as it was; it returns the refusal beside the stack.
-/
import ChipEight.Storage
import ChipEight.Text.Hex

namespace ChipEight

/-- Why an operation on the stack is refused. -/
inductive StackFault
  | overflow (address : Int)
  | underflow
  deriving DecidableEq, Repr

def StackFault.message : StackFault → String
  | overflow address => "Stack overflow pushing " ++ hex 3 address
  | underflow => "Stack underflow on RET"

/-- Why there is no stack of a size. -/
inductive StackSizeFault
  /-- the size is no word of 64 bits -/
  | noWord
  | noRoom
  deriving DecidableEq, Repr

def StackSizeFault.message : StackSizeFault → String
  | noWord => LongWord.indexRefusal
  | noRoom => ""

/-- The number of slots of a stack of a given size, each of eight bytes.  A negative size is taken
for zero. -/
def slotCount (size : Int) : Except StackSizeFault Nat :=
  if !LongWord.fits size then .error .noWord
  else if room ≤ 8 * size.toNat then .error .noRoom
  else .ok size.toNat

/-- A stack of at most `size` addresses. -/
structure CallStack (size : Nat) where
  slots : Vector Int size
  depth : Nat
  depth_le : depth ≤ size
  deriving DecidableEq, Repr

namespace CallStack

variable {size : Nat}

def empty : CallStack size := ⟨.replicate size 0, 0, Nat.zero_le size⟩

/-- The addresses on the stack, oldest first. -/
def inUse (s : CallStack size) : List Int := s.slots.toList.take s.depth

def push (s : CallStack size) (address : Int) : Except StackFault Unit × CallStack size :=
  if h : s.depth < size then (.ok (), ⟨s.slots.set s.depth address, s.depth + 1, h⟩)
  else (.error (.overflow address), s)

def pop (s : CallStack size) : Except StackFault Int × CallStack size :=
  if h : 0 < s.depth then
    have below : s.depth - 1 < size := by have := s.depth_le; omega
    (.ok s.slots[s.depth - 1], ⟨s.slots, s.depth - 1, Nat.le_of_lt below⟩)
  else (.error .underflow, s)

/-- The stack with all slots wiped. -/
def clear (_ : CallStack size) : CallStack size := empty

end CallStack

end ChipEight
