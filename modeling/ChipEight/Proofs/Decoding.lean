/-
What decoding gives.

An instruction may be written down with any integers as operands.  Those of a decoded word
are fields of the word, so they fit:

    registers and sprite heights are digits, constants are bytes, addresses are below 4096.

Main results: what `decode` returns fits (`decode_fits`), and an instruction that fits names
existing registers only, so that executing it is performing it (`execute_of_fits`).  The
leading digit of a word can be read off its instruction (`group_of_decodeGroup?`), which tells
the words of the two instructions that touch the stack: `2nnn` (`decode_eq_call_iff`) and
`00EE` (`decode_eq_ret_iff`).
-/
import ChipEight.Instruction.Decode
import ChipEight.Machine.Execute

namespace ChipEight

/-! ### Fitting operands -/

/-- An operand fits the field of a word that it would be taken from. -/
def Operand.Fits : Operand → Prop
  | register number => 0 ≤ number ∧ number < 16
  | address value => 0 ≤ value ∧ value < 4096
  | byte value => 0 ≤ value ∧ value < 256
  | count value => 0 ≤ value ∧ value < 16
  | named _ => True

/-- All operands of an instruction fit. -/
def Instruction.Fits (i : Instruction) : Prop := ∀ o ∈ i.operands, o.Fits

namespace Operand

theorem fits_x (w : Int) : (register (Word.x w)).Fits := by
  simp only [Fits, Word.x]
  omega

theorem fits_y (w : Int) : (register (Word.y w)).Fits := by
  simp only [Fits, Word.y]
  omega

theorem fits_digit (w : Int) : (count (Word.digit w)).Fits := by
  simp only [Fits, Word.digit]
  omega

theorem fits_byte (w : Int) : (byte (Word.byte w)).Fits := by
  simp only [Fits, Word.byte]
  omega

theorem fits_address (w : Int) : (address (Word.address w)).Fits := by
  simp only [Fits, Word.address]
  omega

theorem fits_named (name : String) : (named name).Fits := trivial

theorem fits_register (x : Fin 16) : (register x.val).Fits := by
  simp only [Fits]
  omega

theorem fits_byteOf (k : UInt8) : (byte k.toNat).Fits := by
  have hk := k.toNat_lt
  simp only [Fits]
  omega

end Operand

namespace Instruction

open Operand

/-! ### Decoded instructions fit -/

attribute [local simp] fits_x fits_y fits_digit fits_byte fits_address fits_named

theorem decodeSystem_fits (w : Int) : (decodeSystem w).Fits := by
  unfold decodeSystem
  split
  · simp [Fits, operands]
  · split <;> simp [Fits, operands]

theorem decodeArithmetic?_fits {w : Int} {i : Instruction} (h : decodeArithmetic? w = some i) :
    i.Fits := by
  unfold decodeArithmetic? at h
  dsimp only at h
  split at h <;> cases h <;> simp [Fits, operands]

theorem decodeKey?_fits {w : Int} {i : Instruction} (h : decodeKey? w = some i) : i.Fits := by
  unfold decodeKey? at h
  split at h <;> cases h <;> simp [Fits, operands]

theorem decodeTransfer?_fits {w : Int} {i : Instruction} (h : decodeTransfer? w = some i) :
    i.Fits := by
  unfold decodeTransfer? at h
  dsimp only at h
  split at h <;> cases h <;> simp [Fits, operands]

theorem decodeGroup?_fits {w : Int} {i : Instruction} (h : decodeGroup? w = some i) : i.Fits := by
  unfold decodeGroup? at h
  dsimp only at h
  -- four groups have a decoder of their own, each of the others has one instruction
  split at h
  case h_1 =>
    cases h
    exact decodeSystem_fits w
  case h_9 => exact decodeArithmetic?_fits h
  case h_15 => exact decodeKey?_fits h
  case h_16 => exact decodeTransfer?_fits h
  all_goals
    cases h
    simp [Fits, operands]

/-- Between `0` and `0xFFFF` the groups decide; no other integer is an instruction. -/
theorem decode_eq_ok_iff {w : Int} {i : Instruction} :
    decode w = .ok i ↔ (0 ≤ w ∧ w ≤ 0xFFFF) ∧ decodeGroup? w = some i := by
  unfold decode
  by_cases hw : 0 ≤ w ∧ w ≤ 0xFFFF
  · rw [if_pos hw]
    rcases decodeGroup? w with - | j <;> simp [hw]
  · rw [if_neg hw]
    simp [hw]

/-- **The operands of a decoded instruction fit their fields.** -/
theorem decode_fits {w : Int} {i : Instruction} (h : decode w = .ok i) : i.Fits :=
  decodeGroup?_fits (decode_eq_ok_iff.mp h).2

/-! ### The words of calls and returns -/

/-- The leading digit of the words of an instruction. -/
def group : Instruction → Int
  | clear | ret | sys _ => 0x0
  | jump _ => 0x1
  | call _ => 0x2
  | skipEqualByte .. => 0x3
  | skipUnequalByte .. => 0x4
  | skipEqual .. => 0x5
  | loadByte .. => 0x6
  | addByte .. => 0x7
  | copy .. | or .. | and .. | xor .. | add .. | sub .. | shiftRight _ | subFrom ..
  | shiftLeft _ => 0x8
  | skipUnequal .. => 0x9
  | loadIndex _ => 0xA
  | jumpOffset _ => 0xB
  | random .. => 0xC
  | draw .. => 0xD
  | skipHeld _ | skipReleased _ => 0xE
  | awaitKey _ | readDelay _ | setDelay _ | setSound _ | addIndex _ | glyph _ | decimal _
  | store _ | load _ => 0xF

theorem decodeSystem_group (w : Int) : (decodeSystem w).group = 0 := by
  unfold decodeSystem
  split
  · rfl
  · split <;> rfl

theorem decodeArithmetic?_group {w : Int} {i : Instruction} (h : decodeArithmetic? w = some i) :
    i.group = 8 := by
  unfold decodeArithmetic? at h
  dsimp only at h
  split at h <;> cases h <;> rfl

theorem decodeKey?_group {w : Int} {i : Instruction} (h : decodeKey? w = some i) :
    i.group = 0xE := by
  unfold decodeKey? at h
  split at h <;> cases h <;> rfl

theorem decodeTransfer?_group {w : Int} {i : Instruction} (h : decodeTransfer? w = some i) :
    i.group = 0xF := by
  unfold decodeTransfer? at h
  dsimp only at h
  split at h <;> cases h <;> rfl

theorem group_of_decodeGroup? {w : Int} {i : Instruction} (h : decodeGroup? w = some i) :
    Word.group w = i.group := by
  have hg := Word.group_bounds w
  unfold decodeGroup? at h
  dsimp only at h
  split at h
  case h_1 =>
    cases h
    rw [decodeSystem_group]
    omega
  case h_9 =>
    rw [decodeArithmetic?_group h]
    omega
  case h_15 =>
    rw [decodeKey?_group h]
    omega
  case h_16 =>
    -- the last group is what remains, so its digit follows from the bounds
    rw [decodeTransfer?_group h]
    simp only [imp_false] at *
    omega
  all_goals
    cases h
    simp only [group]
    omega

/-- The words of calls are `2nnn`. -/
theorem decode_eq_call_iff {w a : Int} :
    decode w = .ok (.call a) ↔ (0 ≤ w ∧ w ≤ 0xFFFF) ∧ Word.group w = 2 ∧ Word.address w = a := by
  rw [decode_eq_ok_iff]
  refine and_congr_right fun _ => ⟨fun h => ?_, fun ⟨hg, ha⟩ => by simp [decodeGroup?, hg, ha]⟩
  have hg := group_of_decodeGroup? h
  simp [decodeGroup?, hg, group] at h
  exact ⟨hg, h⟩

/-- The word of a return is `00EE`. -/
theorem decode_eq_ret_iff {w : Int} : decode w = .ok .ret ↔ w = 0x00EE := by
  rw [decode_eq_ok_iff]
  constructor
  · rintro ⟨hw, h⟩
    have hg := group_of_decodeGroup? h
    simp only [decodeGroup?, hg, group] at h
    have hs : decodeSystem w = .ret := by simpa using h
    unfold decodeSystem at hs
    split at hs
    · cases hs
    · split at hs
      · rename_i hx
        simp only [group, Word.group, Word.x, Word.byte] at hg hx
        omega
      · cases hs
  · rintro rfl
    exact ⟨by decide, by decide⟩

end Instruction

/-! ### The registers of a fitting instruction exist -/

theorem RegisterUse.faultAt?_of_fits {x : Int} (h : (Operand.register x).Fits)
    (fault : RegisterFault) : faultAt? x fault = none := by
  obtain ⟨hx, hx'⟩ := h
  unfold faultAt?
  rw [if_pos ⟨by omega, hx'⟩]

/-- The last register of a block is no more than the register that the instruction names. -/
theorem Operand.fits_clamped {x : Int} (h : (register x).Fits) :
    (register (min 16 (max 0 x))).Fits := by
  obtain ⟨hx, hx'⟩ := h
  constructor <;> omega

theorem Instruction.registerFault?_of_fits {i : Instruction} (h : i.Fits) :
    i.registerFault? = none := by
  cases i <;>
    simp_all [Fits, operands, registerFault?, registerUses, RegisterUse.fault?,
      RegisterUse.faultAt?_of_fits, Operand.fits_clamped]

namespace Machine

/-- The numbers 0 to 15 are those of the registers. -/
theorem slot_val (x : Fin 16) : slot x.val = x := by
  apply Fin.ext
  show ((x.val : Int) % 0x10).toNat = x.val
  omega

theorem execute_of_fits {i : Instruction} (h : i.Fits) (m : Machine) :
    m.execute i = m.perform i := by
  rw [execute, Instruction.registerFault?_of_fits h]

/-! ### Fetched words -/

theorem fetch?_eq_none_iff {m : Machine} :
    m.fetch? = none ↔ ¬ (0 ≤ m.pc ∧ m.pc ≤ lastWord) := by
  unfold fetch?
  split <;> simp_all

theorem pc_of_fetch? {m : Machine} {w : Int} (h : m.fetch? = some w) :
    0 ≤ m.pc ∧ m.pc ≤ lastWord := by
  unfold fetch? at h
  split at h
  · assumption
  · cases h

/-- What is fetched is a word of two bytes. -/
theorem word_of_fetch? {m : Machine} {w : Int} (h : m.fetch? = some w) :
    0 ≤ w ∧ w ≤ 0xFFFF := by
  unfold fetch? at h
  split at h
  · obtain rfl := Option.some.inj h
    exact Word.join_bounds _ _
  · cases h

/-- What is fetched from a program just loaded are two of its bytes. -/
theorem fetch?_load {program : Array UInt8} {m : Machine} {k : Nat}
    (hpc : m.pc = (programStart + k : Nat)) (hk : k + 1 < program.size)
    (hroom : k + 1 < programRoom) :
    (m.load program).fetch? =
      some (0x100 * (program[k].toNat : Int) + (program[k + 1].toNat : Int)) := by
  simp only [programRoom, programStart] at hpc hroom
  have hb : 0 ≤ m.pc ∧ m.pc ≤ lastWord := by
    unfold lastWord
    omega
  have hn : m.pc.toNat = 0x200 + k := by omega
  have e : (m.load program).fetch? = some (Word.join program[k].toNat program[k + 1].toNat) := by
    simp [fetch?, load, hb, hn, programStart, Nat.add_assoc, hk, Nat.lt_of_succ_lt hk]
  rw [e, Word.join_eq _ (UInt8.toNat_lt _)]

/-- A machine with nothing in its memory but the given bytes. -/
def holding (bytes : List (Nat × UInt8)) : Machine :=
  { powerOn {} (.cycling #[]) (second.fdiv 60) with
    memory := bytes.foldl (fun memory (a, byte) => memory.setIfInBounds a byte)
      (.replicate 4096 0) }

end Machine

end ChipEight
