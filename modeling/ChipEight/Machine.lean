/-
The state of the computer, and the operations on it that are no instruction.

    memory      4096 bytes, the first 80 of them the glyphs of the sixteen digits;
                programs are loaded at `0x200`
    registers   sixteen bytes; the last is also the flag
    index, pc   two addresses, kept as integers
    stack       sixteen return addresses
    timers, screen, keys, dice

The flag `hold` tells the end of a tick to leave the program counter alone.
-/
import ChipEight.CallStack
import ChipEight.Countdown
import ChipEight.Dice
import ChipEight.Framebuffer
import ChipEight.Keypad
import ChipEight.Word

namespace ChipEight

/-- The choices on which interpreters of this machine disagree. -/
structure Dialect where
  keyChoice : KeyChoice := .last
  /-- whether adding a constant sets the flag, as adding a register does -/
  addByteSetsFlag : Bool := true
  deriving DecidableEq, Repr

/-- The address programs are loaded at and start from. -/
def programStart : Nat := 0x200

/-- The number of bytes that fit between `programStart` and the end of memory. -/
def programRoom : Nat := 4096 - programStart

/-- The last address at which a whole word can be fetched. -/
def lastWord : Int := 4094

/-- The glyphs of the digits `0` to `F`, five rows each. -/
def glyphs : Array UInt8 :=
  #[0xF0, 0x90, 0x90, 0x90, 0xF0,
    0x20, 0x60, 0x20, 0x20, 0x70,
    0xF0, 0x10, 0xF0, 0x80, 0xF0,
    0xF0, 0x10, 0xF0, 0x10, 0xF0,
    0x90, 0x90, 0xF0, 0x10, 0x10,
    0xF0, 0x80, 0xF0, 0x10, 0xF0,
    0xF0, 0x80, 0xF0, 0x90, 0xF0,
    0xF0, 0x10, 0x20, 0x40, 0x40,
    0xF0, 0x90, 0xF0, 0x90, 0xF0,
    0xF0, 0x90, 0xF0, 0x10, 0xF0,
    0xF0, 0x90, 0xF0, 0x90, 0x90,
    0xE0, 0x90, 0xE0, 0x90, 0xE0,
    0xF0, 0x80, 0x80, 0x80, 0xF0,
    0xE0, 0x90, 0x90, 0x90, 0xE0,
    0xF0, 0x80, 0xF0, 0x80, 0xF0,
    0xF0, 0x80, 0xF0, 0x80, 0x80]

abbrev Memory := Vector UInt8 4096

/-- The pixels of the screen. -/
abbrev Picture := Grid 64 32

/-- The whole state of the computer. -/
structure Machine where
  memory : Memory
  registers : Vector UInt8 16
  index : Int
  pc : Int
  stack : CallStack 16
  timers : Timers
  screen : Framebuffer 64 32
  keys : Keypad
  hold : Bool
  dialect : Dialect
  dice : Dice

namespace Machine

/-! ### Power-on, reset, loading -/

/-- Memory with the glyphs and nothing else. -/
def initialMemory : Memory := .ofFn fun a => glyphs.getD a 0

/-- The machine as it is switched on, its timers running with the given period. -/
def powerOn (dialect : Dialect) (dice : Dice) (period : Int) : Machine where
  memory := initialMemory
  registers := .replicate 16 0
  index := 0
  pc := programStart
  stack := .empty
  timers := .stopped period
  screen := .blank
  keys := .released
  hold := false
  dialect := dialect
  dice := dice

/-- The machine with timers of the given rate, as it is switched on. -/
def build (dialect : Dialect) (dice : Dice) (timerRate : Int) : Except RateError Machine :=
  (periodOf timerRate).map (powerOn dialect dice)

/-- Back to the state at power-on; the dice keep their place. -/
def reset (m : Machine) : Machine :=
  { m with
    memory := initialMemory
    registers := .replicate 16 0
    index := 0
    pc := programStart
    stack := m.stack.clear
    timers := m.timers.reset
    screen := m.screen.clear
    keys := .released
    hold := false }

/-- The number of bytes of a program that are loaded. -/
def loadedSize (program : Array UInt8) : Nat := min program.size programRoom

/-- Copy a program into memory; what reaches beyond its end is dropped. -/
def load (program : Array UInt8) (m : Machine) : Machine :=
  { m with
    memory := .ofFn fun a =>
      if programStart ≤ a then program.getD (a - programStart) m.memory[a] else m.memory[a] }

/-- Let go of all keys. -/
def releaseKeys (m : Machine) : Machine := { m with keys := .released }

/-- Check the timers at `now`. -/
def checkTimers (now : Int) (m : Machine) : Machine := { m with timers := m.timers.check now }

/-! ### Registers and memory -/

/-- The register with a number; only its last hexadecimal digit counts. -/
def slot (x : Int) : Fin 16 := ⟨(Word.digit x).toNat, Word.digit_lt x⟩

/-- The number of the flag register. -/
def flag : Int := 0xF

/-- The value of register `x`. -/
def reg (m : Machine) (x : Int) : Int := m.registers[slot x].toNat

/-- Set register `x` to the low eight bits of `value`. -/
def setReg (m : Machine) (x value : Int) : Machine :=
  { m with registers := m.registers.set (slot x) (UInt8.ofInt value) }

/-- The cell `offset` bytes after the index; addresses wrap around. -/
def cell (m : Machine) (offset : Nat) : Fin 4096 := ⟨((m.index + offset) % 4096).toNat, by omega⟩

/-- The word at the program counter, if a whole word is there. -/
def fetch? (m : Machine) : Option Int :=
  if h : 0 ≤ m.pc ∧ m.pc ≤ lastWord then
    have low : m.pc.toNat + 1 < 4096 := by simp only [lastWord] at h; omega
    some (Word.join m.memory[m.pc.toNat].toNat m.memory[m.pc.toNat + 1].toNat)
  else none

/-- The program counter moved to the next word. -/
def advance (m : Machine) : Machine := { m with pc := (m.pc + 2) % 0x10000 }

/-! ### The machine as text -/

/-- One line with the registers of the machine. -/
def text (m : Machine) : String :=
  "Chip8(pc=" ++ hex 3 m.pc ++ ", sp=" ++ toString m.stack.depth ++ ", I=" ++ hex 3 m.index
    ++ ", V=[" ++ " ".intercalate (m.registers.toList.map fun v => hex 2 v.toNat)
    ++ "], DT=" ++ toString m.timers.delay.value.toNat
    ++ ", ST=" ++ toString m.timers.sound.value.toNat ++ ")"

end Machine

end ChipEight
