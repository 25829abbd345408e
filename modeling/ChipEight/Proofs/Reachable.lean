/-
The states that a machine can come to.

The owner of a machine loads programs, resets it, lets it tick, presses and releases keys and
checks the timers, in any order.  A state is reachable if it comes about so from power-on; an
instruction executed apart from the ticks is one more kind of act, which reachable states leave out.
Two numbers and a list have ranges that their types do not tell:

    0 ≤ index ≤ 0xFFFF,     0 ≤ pc ≤ 0x10FE,     2 ≤ a ≤ 4096 for every return address `a`,

and they are kept by every operation (`InRange.operate`).  The greatest program counter is
that of a jump to `0xFFF` plus a register; a skip at the last word ends up at 4098.

Main result: what every reachable state is like (`Reachable.inRange_and_never_wraps`).  All
sums of addresses stay far below `0x10000`, so no program counter ever wraps around, and a
machine whose program counter has left the memory stays there until it is reset.
-/
import ChipEight.Proofs.Control

namespace ChipEight

/-- What the owner of a machine may do with it. -/
inductive Operation
  | load (program : Array UInt8)
  | reset
  | tick
  | press (key : Fin 16)
  | releaseKeys
  | checkTimers (now : Int)
  deriving DecidableEq, Repr

namespace Machine

/-- The machine after an operation; that a tick halts does not matter. -/
def operate (m : Machine) : Operation → Machine
  | .load program => m.load program
  | .reset => m.reset
  | .tick => m.tick.2
  | .press key => { m with keys := (m.keys.pressAll [(key.val : Int)]).2 }
  | .releaseKeys => m.releaseKeys
  | .checkTimers now => m.checkTimers now

/-- The machine after a sequence of operations. -/
def after (m : Machine) (ops : List Operation) : Machine := ops.foldl operate m

/-- What may be done to a machine apart from its runs: any operation, and any instruction. -/
inductive Act
  | operate (o : Operation)
  | execute (i : Instruction)

/-- The machine after an act; that it is refused does not matter. -/
def act (m : Machine) : Act → Machine
  | .operate o => m.operate o
  | .execute i => (m.execute i).2

/-- The states that a machine can come to, in any dialect, with any dice and any timer rate. -/
inductive Reachable : Machine → Prop
  | built {dialect : Dialect} {dice : Dice} {timerRate : Int} {m : Machine} :
      build dialect dice timerRate = .ok m → Reachable m
  | operate {m : Machine} : Reachable m → (o : Operation) → Reachable (m.operate o)

theorem reachable_powerOn {dialect : Dialect} {dice : Dice} {timerRate : Int}
    (h : timerRate ≠ 0) : Reachable (powerOn dialect dice (second.fdiv timerRate)) := by
  have hb : build dialect dice timerRate = .ok (powerOn dialect dice (second.fdiv timerRate)) := by
    rw [build, periodOf, if_neg h]
    rfl
  exact .built hb

theorem Reachable.after {m : Machine} (h : Reachable m) (ops : List Operation) :
    Reachable (m.after ops) := by
  induction ops generalizing m with
  | nil => exact h
  | cons o ops ih => exact ih (h.operate o)

/-! ### Ranges -/

/-- The sizes of the parts of a machine, and the values of what is kept in bytes. -/
structure Shaped (m : Machine) : Prop where
  memory : m.memory.toList.length = 4096
  registers : m.registers.toList.length = 16
  reg : ∀ x, 0 ≤ m.reg x ∧ m.reg x ≤ 255
  slots : m.stack.slots.toList.length = 16
  depth : m.stack.depth ≤ 16
  delay : m.timers.delay.value.toNat ≤ 255
  sound : m.timers.sound.value.toNat ≤ 255
  rows : m.screen.pixels.toList.length = 32
  columns : ∀ row ∈ m.screen.pixels.toList, row.toList.length = 64

/-- The index, the program counter and the return addresses are in range. -/
structure InRange (m : Machine) : Prop where
  index : 0 ≤ m.index ∧ m.index ≤ 0xFFFF
  pc : 0 ≤ m.pc ∧ m.pc ≤ 0x10FE
  inUse : ∀ a ∈ m.stack.inUse, 2 ≤ a ∧ a ≤ 4096

/-- No sum of addresses that the next tick may form reaches `0x10000`. -/
structure NeverWraps (m : Machine) : Prop where
  advance : m.advance.pc = m.pc + 2
  skip : m.advance.advance.pc = m.pc + 4
  call : (m.pc + 2) % 0x10000 = m.pc + 2
  jumpOffset : ∀ w a, Instruction.decode w = .ok (.jumpOffset a) →
    (a + m.reg 0) % 0x10000 = a + m.reg 0

variable {m : Machine}

theorem shaped (m : Machine) : m.Shaped where
  memory := by simp
  registers := by simp
  reg := m.reg_bounds
  slots := by simp
  depth := m.stack.depth_le
  delay := Nat.le_of_lt_succ (UInt8.toNat_lt _)
  sound := Nat.le_of_lt_succ (UInt8.toNat_lt _)
  rows := by simp
  columns := fun _ _ => Vector.length_toList

theorem inRange_powerOn (dialect : Dialect) (dice : Dice) (period : Int) :
    (powerOn dialect dice period).InRange where
  index := by simp [powerOn]
  pc := by simp [powerOn, programStart]
  inUse := by simp [powerOn]

/-! ### Every operation keeps the ranges -/

theorem perform_index {i : Instruction} (hi : i.Fits) (h : 0 ≤ m.index ∧ m.index ≤ 0xFFFF) :
    0 ≤ (m.perform i).2.index ∧ (m.perform i).2.index ≤ 0xFFFF := by
  cases i with
  | loadIndex a =>
    have ha : 0 ≤ a ∧ a < 4096 := hi (.address a) (by simp [Instruction.operands])
    show 0 ≤ a ∧ a ≤ 0xFFFF
    omega
  | addIndex x =>
    show 0 ≤ (m.index + m.reg x) % 0x10000 ∧ (m.index + m.reg x) % 0x10000 ≤ 0xFFFF
    omega
  | glyph x =>
    have hx := m.reg_bounds x
    show 0 ≤ m.reg x * 5 ∧ m.reg x * 5 ≤ 0xFFFF
    omega
  | ret | call a | draw x y height | addByte x k | awaitKey x =>
    simp only [perform]
    split <;> exact h
  | skipEqualByte x k | skipUnequalByte x k | skipEqual x y | skipUnequal x y | skipHeld x
  | skipReleased x =>
    simp only [perform, skipIf]
    split <;> exact h
  | _ => exact h

@[simp] theorem settle_index (m : Machine) : m.settle.index = m.index := by
  unfold settle
  split <;> rfl

theorem tick_index (h : 0 ≤ m.index ∧ m.index ≤ 0xFFFF) :
    0 ≤ m.tick.2.index ∧ m.tick.2.index ≤ 0xFFFF := by
  have ht := m.ticked
  rcases e : m.tick with ⟨r, n⟩
  rw [e] at ht
  cases ht with
  | outOfBounds _ => exact h
  | unknown _ _ => exact h
  | refused _ _ _ => exact h
  | performed _ hd hp =>
    have hi := perform_index (Instruction.decode_fits hd) h
    rw [hp] at hi
    simpa using hi

theorem InRange.tick (h : m.InRange) : m.tick.2.InRange := by
  have ht := m.tick_move
  have hi := tick_index h.index
  rcases e : m.tick with ⟨r, n⟩
  rw [e] at ht hi
  show n.InRange
  cases ht with
  | halt _ => exact h
  | stay hpc hs => exact ⟨hi, hpc, by rw [hs]; exact h.inUse⟩
  | call hw hpush ha hpc =>
    -- the address behind a call at the last word is 4096
    have hm := pc_of_fetch? hw
    refine ⟨hi, by omega, fun b hb => ?_⟩
    rw [CallStack.inUse_push hpush, List.mem_append, List.mem_singleton] at hb
    rcases hb with hb | rfl
    · exact h.inUse b hb
    · simp only [lastWord] at hm
      omega
  | ret hw hpop =>
    -- where a return goes is in range since every address in use is
    have hs := CallStack.inUse_pop hpop
    have hpc := h.inUse n.pc (by rw [hs]; simp)
    exact ⟨hi, by omega, fun b hb => h.inUse b (by rw [hs]; exact List.mem_append_left _ hb)⟩

/-- Loading a program changes the memory only. -/
theorem load_frame (program : Array UInt8) (m : Machine) :
    ∃ memory, m.load program = { m with memory } := ⟨_, rfl⟩

theorem inRange_reset (m : Machine) : m.reset.InRange where
  index := by simp [reset]
  pc := by simp [reset, programStart]
  inUse := by simp [reset, CallStack.clear]

/-- **Every operation keeps the ranges.** -/
theorem InRange.operate (h : m.InRange) (o : Operation) : (m.operate o).InRange := by
  cases o with
  | tick => exact h.tick
  | reset => exact inRange_reset m
  | load program =>
    obtain ⟨memory, e⟩ := load_frame program m
    rw [Machine.operate, e]
    exact ⟨h.index, h.pc, h.inUse⟩
  | press key => exact ⟨h.index, h.pc, h.inUse⟩
  | releaseKeys => exact ⟨h.index, h.pc, h.inUse⟩
  | checkTimers now => exact ⟨h.index, h.pc, h.inUse⟩

theorem Reachable.inRange (h : Reachable m) : m.InRange := by
  induction h with
  | @built dialect dice timerRate m hb =>
    simp only [build, periodOf] at hb
    split at hb
    · cases hb
    · obtain rfl := Except.ok.inj hb
      exact inRange_powerOn ..
  | operate _ o ih => exact ih.operate o

/-! ### No wrap-around -/

theorem InRange.neverWraps (h : m.InRange) : m.NeverWraps where
  advance := by
    have hpc := h.pc
    simp only [advance]
    omega
  skip := by
    have hpc := h.pc
    simp only [advance]
    omega
  call := by
    have hpc := h.pc
    omega
  jumpOffset := by
    intro w a hd
    have ha : 0 ≤ a ∧ a < 4096 :=
      Instruction.decode_fits hd (.address a) (by simp [Instruction.operands])
    have hr := m.reg_bounds 0
    omega

/-- Out of memory only a reset moves the program counter. -/
theorem operate_pc_of_outside (h : lastWord < m.pc) {o : Operation} (ho : o ≠ .reset) :
    (m.operate o).pc = m.pc := by
  cases o with
  | tick =>
    have hf : m.fetch? = none := fetch?_eq_none_iff.mpr (by omega)
    show m.tick.2.pc = m.pc
    rw [tick_of_outside hf]
  | reset => exact absurd rfl ho
  | load program =>
    obtain ⟨memory, e⟩ := load_frame program m
    rw [operate, e]
  | press key => rfl
  | releaseKeys => rfl
  | checkTimers now => rfl

theorem after_pc_of_outside (h : lastWord < m.pc) {ops : List Operation}
    (hops : .reset ∉ ops) : (m.after ops).pc = m.pc := by
  induction ops generalizing m with
  | nil => rfl
  | cons o ops ih =>
    have ho : (m.operate o).pc = m.pc :=
      operate_pc_of_outside h (List.ne_of_not_mem_cons hops).symm
    have hops' : .reset ∉ ops := List.not_mem_of_not_mem_cons hops
    show ((m.operate o).after ops).pc = m.pc
    rw [ih (by rw [ho]; exact h) hops', ho]

/-- **What every reachable state is like.**  The sizes of memory, registers, stack and screen
are those of their types; index, program counter and return addresses are in range; no
program counter wraps around; and a machine that has run off the end of memory does not come
back by anything but a reset. -/
theorem Reachable.inRange_and_never_wraps (h : Reachable m) :
    m.Shaped ∧ m.InRange ∧ m.NeverWraps ∧
      (lastWord < m.pc → ∀ ops : List Operation, .reset ∉ ops → (m.after ops).pc = m.pc) :=
  ⟨m.shaped, h.inRange, h.inRange.neverWraps, fun hpc _ hops => after_pc_of_outside hpc hops⟩

/-- A machine that has jumped behind the last word. -/
def strayed : Machine :=
  (powerOn {} (.cycling #[]) (second.fdiv 60)).after [.load #[0x1F, 0xFF], .tick]

theorem reachable_strayed : Reachable strayed :=
  (reachable_powerOn (by decide)).after _

theorem strayed_pc : strayed.pc = 4095 := by
  have e : ∀ m : Machine, m.after [.load #[0x1F, 0xFF], .tick] = (m.load #[0x1F, 0xFF]).tick.2 :=
    fun _ => rfl
  have hf : ((powerOn {} (.cycling #[]) (second.fdiv 60)).load #[0x1F, 0xFF]).fetch? =
      some 0x1FFF := fetch?_load (k := 0) rfl (by decide) (by decide)
  rw [strayed, e, tick_jump hf (a := 0xFFF) rfl]

theorem strayed_never_comes_back :
    Reachable strayed ∧ lastWord < strayed.pc ∧
      ∀ ops : List Operation, .reset ∉ ops → (strayed.after ops).pc = strayed.pc := by
  have hpc : lastWord < strayed.pc := by
    rw [strayed_pc]
    decide
  exact ⟨reachable_strayed, hpc, reachable_strayed.inRange_and_never_wraps.2.2.2 hpc⟩

end Machine

end ChipEight
