/-
Arithmetic with a flag.

Registers are bytes, and what does not fit into a byte goes to the flag, which is register F.
Seven instructions leave a result `r` and a flag `f`, and the two together are exact:

    8xy4   r + 256 f = vx + vy                 8xy6   2 r + f = vx
    8xy5   r - 256 (1 - f) = vx - vy           8xyE   r + 256 f = 2 vx
    8xy7   r - 256 (1 - f) = vy - vx           7xkk   r + 256 f = vx + kk
                                               Fx1E   r + 65536 f = index + vx

The flag of a difference is raised if nothing had to be borrowed.  `Fx1E` leaves its result in the
index.  In one dialect `7xkk` leaves no flag, and is a plain sum modulo 256.

All operands are read before anything is written, and the flag is written after the result.  So an
operand that is the flag counts with its old value, and if the result belongs into register F it
is lost: what remains there is the flag (`leaves_setWithFlag`).

Main result: `execute_exact`.
-/
import ChipEight.Proofs.Control

namespace ChipEight.Machine

variable {m : Machine}

/-! ### Different registers -/

theorem slot_ne {y x : Fin 16} (h : y ≠ x) : slot y.val ≠ slot x.val := by
  rw [slot_val, slot_val]
  exact h

theorem slot_ne_flag {y : Fin 16} (h : y.val ≠ flag) : slot y.val ≠ slot flag :=
  slot_ne (x := 15) fun e => h (by rw [e]; rfl)

/-! ### Result and flag -/

/-- A byte `r` is left in register `x`, a bit `f` in the flag, and all else as it was.  If register
`x` is the flag, `f` is what is left in it. -/
structure Leaves (m m' : Machine) (x : Fin 16) (r f : Int) : Prop where
  byte : 0 ≤ r ∧ r < 256
  bit : f = 0 ∨ f = 1
  result : x.val ≠ flag → m'.reg x.val = r
  flagged : m'.reg flag = f
  others : ∀ y : Fin 16, y ≠ x → y.val ≠ flag → m'.reg y.val = m.reg y.val
  rest : m' = { m with registers := m'.registers }

/-- A word is left in the index, a bit `f` in the flag, and all else as it was. -/
structure LeavesWord (m m' : Machine) (f : Int) : Prop where
  word : 0 ≤ m'.index ∧ m'.index < 0x10000
  bit : f = 0 ∨ f = 1
  flagged : m'.reg flag = f
  others : ∀ y : Fin 16, y.val ≠ flag → m'.reg y.val = m.reg y.val
  rest : m' = { m with index := m'.index, registers := m'.registers }

/-- An instruction is not refused, and leaves in register `x` and in the flag what solves an
equation. -/
def Solves (m : Machine) (i : Instruction) (x : Fin 16) (equation : Int → Int → Prop) : Prop :=
  ∃ m' r f, m.execute i = (none, m') ∧ m.Leaves m' x r f ∧ equation r f

/-- **The result is written first and the flag last.** -/
theorem leaves_setWithFlag (m : Machine) (x : Fin 16) (value : Int) (raised : Bool) :
    m.Leaves (m.setWithFlag x.val value raised) x (value % 256) (if raised then 1 else 0) where
  byte := by omega
  bit := by cases raised <;> simp
  result := by
    intro hx
    show ((m.setReg x.val value).setReg flag _).reg x.val = value % 256
    rw [reg_setReg_of_ne (slot_ne_flag hx), reg_setReg_self]
  flagged := by
    show ((m.setReg x.val value).setReg flag _).reg flag = _
    rw [reg_setReg_self]
    cases raised <;> rfl
  others := by
    intro y hyx hy
    show ((m.setReg x.val value).setReg flag _).reg y.val = m.reg y.val
    rw [reg_setReg_of_ne (slot_ne_flag hy), reg_setReg_of_ne (slot_ne hyx)]
  rest := rfl

/-- An instruction that sets a register and the flag solves an equation if the low byte of the value
and the flag do. -/
theorem solves_of_setWithFlag {i : Instruction} {x : Fin 16} {value : Int} {raised : Bool}
    {equation : Int → Int → Prop} (hi : i.Fits)
    (hp : m.perform i = (none, m.setWithFlag x.val value raised))
    (he : equation (value % 256) (if raised then 1 else 0)) : m.Solves i x equation :=
  ⟨_, _, _, (execute_of_fits hi m).trans hp, m.leaves_setWithFlag x value raised, he⟩

/-! ### The instructions -/

section Instructions

open Operand

attribute [local simp] Instruction.Fits Instruction.operands fits_register fits_byteOf fits_named

variable (m : Machine) (x y : Fin 16) (k : UInt8)

theorem add_solves : m.Solves (.add x.val y.val) x fun r f =>
    r + 256 * f = m.reg x.val + m.reg y.val := by
  have hx := m.reg_bounds x.val
  have hy := m.reg_bounds y.val
  apply solves_of_setWithFlag (by simp) rfl
  simp only [decide_eq_true_eq]
  split <;> omega

/-- With no borrow the difference is the result, and else it is 256 less. -/
theorem difference_solves {i : Instruction} {a b : Int} (ha : 0 ≤ a ∧ a ≤ 255)
    (hb : 0 ≤ b ∧ b ≤ 255) (hi : i.Fits)
    (hp : m.perform i = (none, m.setWithFlag x.val (a - b) (b ≤ a))) :
    m.Solves i x fun r f => a - b = r - 256 * (1 - f) := by
  apply solves_of_setWithFlag hi hp
  simp only [decide_eq_true_eq]
  split <;> omega

theorem sub_solves : m.Solves (.sub x.val y.val) x fun r f =>
    m.reg x.val - m.reg y.val = r - 256 * (1 - f) :=
  m.difference_solves x (m.reg_bounds x.val) (m.reg_bounds y.val) (by simp) rfl

theorem subFrom_solves : m.Solves (.subFrom x.val y.val) x fun r f =>
    m.reg y.val - m.reg x.val = r - 256 * (1 - f) :=
  m.difference_solves x (m.reg_bounds y.val) (m.reg_bounds x.val) (by simp) rfl

theorem shiftRight_solves : m.Solves (.shiftRight x.val) x fun r f =>
    m.reg x.val = 2 * r + f := by
  have hx := m.reg_bounds x.val
  apply solves_of_setWithFlag (by simp) rfl
  simp only [decide_eq_true_eq]
  split <;> omega

theorem shiftLeft_solves : m.Solves (.shiftLeft x.val) x fun r f =>
    2 * m.reg x.val = r + 256 * f := by
  have hx := m.reg_bounds x.val
  apply solves_of_setWithFlag (by simp) rfl
  simp only [decide_eq_true_eq]
  split <;> omega

theorem addByte_solves (hd : m.dialect.addByteSetsFlag = true) :
    m.Solves (.addByte x.val k.toNat) x fun r f => r + 256 * f = m.reg x.val + k.toNat := by
  have hx := m.reg_bounds x.val
  have hk := k.toNat_lt
  have hp : m.perform (.addByte x.val k.toNat) =
      (none, m.setWithFlag x.val (m.reg x.val + k.toNat) (0xFF < m.reg x.val + k.toNat)) := by
    simp only [perform, hd, if_true]
  apply solves_of_setWithFlag (by simp) hp
  simp only [decide_eq_true_eq]
  split <;> omega

/-- Without a flag the constant is added modulo 256, to register F as to any other. -/
theorem addByte_plain (hd : m.dialect.addByteSetsFlag = false) :
    ∃ m', m.execute (.addByte x.val k.toNat) = (none, m') ∧
      m'.reg x.val = (m.reg x.val + k.toNat) % 256 ∧
      (∀ y : Fin 16, y ≠ x → m'.reg y.val = m.reg y.val) ∧
      m' = { m with registers := m'.registers } := by
  have hp : m.perform (.addByte x.val k.toNat) =
      (none, m.setReg x.val (m.reg x.val + k.toNat)) := by
    simp only [perform, hd, Bool.false_eq_true, if_false]
  refine ⟨_, (execute_of_fits (by simp) m).trans hp, m.reg_setReg_self _ _, ?_, rfl⟩
  intro y hy
  exact reg_setReg_of_ne (slot_ne hy) m _

/-- The sum goes to the index and its seventeenth bit to the flag. -/
theorem addIndex_exact (hindex : 0 ≤ m.index ∧ m.index ≤ 0xFFFF) :
    ∃ m' f, m.execute (.addIndex x.val) = (none, m') ∧ m.LeavesWord m' f ∧
      m'.index + 0x10000 * f = m.index + m.reg x.val := by
  have hx := m.reg_bounds x.val
  obtain ⟨total, htotal⟩ : ∃ total, m.index + m.reg x.val = total := ⟨_, rfl⟩
  have hp : m.perform (.addIndex x.val) = (none, { m with index := total % 0x10000 }.setReg flag
      (if 0xFFFF < total then 1 else 0)) := by
    rw [← htotal]
    rfl
  refine ⟨_, if 0xFFFF < total then 1 else 0, (execute_of_fits (by simp) m).trans hp,
    ⟨?_, ?_, ?_, ?_, rfl⟩, ?_⟩
  · show 0 ≤ total % 0x10000 ∧ total % 0x10000 < 0x10000
    omega
  · split <;> simp
  · rw [reg_setReg_self]
    split <;> rfl
  · intro y hy
    exact reg_setReg_of_ne (slot_ne_flag hy) { m with index := total % 0x10000 } _
  · -- two words add up to less than two words, so one bit is enough for the carry
    show total % 0x10000 + 0x10000 * (if 0xFFFF < total then 1 else 0) = m.index + m.reg x.val
    split <;> omega

end Instructions

/-- **Result and flag together are exact.**  Let the index be a word, the registers any bytes, and
`x` and `y` any registers, the same one or the flag among them.  Sums, differences and shifts leave
a byte `r` in register `x` and a bit `f` in the flag that solve the equation of the instruction; if
`x` is the flag, `f` is what it holds then.  A constant is added with a flag in one dialect, and in
the other modulo 256 and without.  What is added to the index leaves a word there and its carry in
the flag.  No other register changes, nor anything else. -/
theorem execute_exact (m : Machine) (hindex : 0 ≤ m.index ∧ m.index ≤ 0xFFFF) (x y : Fin 16)
    (k : UInt8) :
    (m.Solves (.add x.val y.val) x fun r f => r + 256 * f = m.reg x.val + m.reg y.val) ∧
    (m.Solves (.sub x.val y.val) x fun r f => m.reg x.val - m.reg y.val = r - 256 * (1 - f)) ∧
    (m.Solves (.subFrom x.val y.val) x fun r f =>
      m.reg y.val - m.reg x.val = r - 256 * (1 - f)) ∧
    (m.Solves (.shiftRight x.val) x fun r f => m.reg x.val = 2 * r + f) ∧
    (m.Solves (.shiftLeft x.val) x fun r f => 2 * m.reg x.val = r + 256 * f) ∧
    (if m.dialect.addByteSetsFlag then
      m.Solves (.addByte x.val k.toNat) x fun r f => r + 256 * f = m.reg x.val + k.toNat
    else
      ∃ m', m.execute (.addByte x.val k.toNat) = (none, m') ∧
        m'.reg x.val = (m.reg x.val + k.toNat) % 256 ∧
        (∀ y : Fin 16, y ≠ x → m'.reg y.val = m.reg y.val) ∧
        m' = { m with registers := m'.registers }) ∧
    ∃ m' f, m.execute (.addIndex x.val) = (none, m') ∧ m.LeavesWord m' f ∧
      m'.index + 0x10000 * f = m.index + m.reg x.val := by
  refine ⟨m.add_solves x y, m.sub_solves x y, m.subFrom_solves x y, m.shiftRight_solves x,
    m.shiftLeft_solves x, ?_, m.addIndex_exact x hindex⟩
  split
  · rename_i hd
    exact m.addByte_solves x k hd
  · rename_i hd
    exact m.addByte_plain x k (Bool.eq_false_iff.mpr hd)

/-- A machine with 200 in all registers, the flag among them, and the greatest index. -/
def brimming : Machine :=
  { powerOn {} (.cycling #[]) (second.fdiv 60) with
    registers := .replicate 16 200
    index := 0xFFFF }

/-- The flag added to itself leaves the carry there, and added to the index as well. -/
theorem brimming_carries :
    brimming.reg flag = 200 ∧ (0 ≤ brimming.index ∧ brimming.index ≤ 0xFFFF) ∧
      (∃ m', brimming.execute (.add 0xF 0xF) = (none, m') ∧ m'.reg flag = 1) ∧
      ∃ m', brimming.execute (.addIndex 0xF) = (none, m') ∧ m'.index = 199 ∧ m'.reg flag = 1 := by
  have hreg : brimming.reg flag = 200 := rfl
  have hindex : brimming.index = 0xFFFF := rfl
  have hword : 0 ≤ brimming.index ∧ brimming.index ≤ 0xFFFF := by decide
  obtain ⟨⟨m₁, r, f, hadd, hleaves, hsum⟩, -, -, -, -, -, m₂, f₂, haddIndex, hword₂, htotal⟩ :=
    execute_exact brimming hword 15 15 0
  have hsum' : r + 256 * f = brimming.reg flag + brimming.reg flag := hsum
  have htotal' : m₂.index + 0x10000 * f₂ = brimming.index + brimming.reg flag := htotal
  have hbyte := hleaves.byte
  have hbit := hleaves.bit
  have hbounds := hword₂.word
  have hbit₂ := hword₂.bit
  rw [hreg] at hsum' htotal'
  rw [hindex] at htotal'
  refine ⟨hreg, hword, ⟨m₁, hadd, ?_⟩, m₂, haddIndex, ?_, ?_⟩
  · rw [hleaves.flagged]
    omega
  · omega
  · rw [hword₂.flagged]
    omega

end ChipEight.Machine
