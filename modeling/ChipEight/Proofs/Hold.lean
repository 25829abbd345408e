/-
The flag that holds the program counter.

A jump, a call, a return and a wait for a key raise `hold`, so that the tick that executes them
leaves the program counter where they put it, and the end of that tick lowers the flag again.  An
instruction executed outside a tick raises the flag as well, and then it is still up when the next
tick begins.  What that tick leaves of it depends on the word:

    hold afterwards  =  false     if the word is an instruction,
                        hold      if it is none, or if the tick is refused.

So the flag is up after a sequence of acts if and only if some instruction outside a tick raised
it and no act since then has lowered it (`acted_hold_iff`).  Main result: `hold_after_tick`.  The
flag outlives a tick only when it was left up before, and only when the tick passes over a word.
-/
import ChipEight.Proofs.Halting

namespace ChipEight.Machine

variable {m : Machine} {i : Instruction} {acts : List Act}

/-! ### Single instructions and ticks -/

/-- Whether an instruction raises the flag of a machine. -/
def Raises (m : Machine) : Instruction → Prop
  | .jump _ | .jumpOffset _ => True
  | .call _ => m.stack.depth < 16
  | .ret => 0 < m.stack.depth
  | .awaitKey _ => m.keys.choose? m.dialect.keyChoice = none
  | _ => False

theorem skipIf_hold (m : Machine) (condition : Bool) : (m.skipIf condition).hold = m.hold := by
  cases condition <;> rfl

/-- **What an instruction does to the flag**: it raises it or leaves it alone. -/
theorem perform_hold_iff (i : Instruction) (m : Machine) :
    (m.perform i).2.hold = true ↔ m.hold = true ∨ m.Raises i := by
  cases i with
  | jump a | jumpOffset a => exact ⟨fun _ => .inr trivial, fun _ => rfl⟩
  | call a =>
    rcases Nat.lt_or_ge m.stack.depth 16 with h | h
    · obtain ⟨s, e⟩ := CallStack.push_of_lt h ((m.pc + 2) % 0x10000)
      simp [perform, e, jumpTo, Raises, h]
    · have hfull : m.stack.depth = 16 := Nat.le_antisymm m.stack.depth_le h
      simp [perform_call_of_full hfull, Raises, hfull]
  | ret =>
    rcases Nat.eq_zero_or_pos m.stack.depth with h | h
    · simp [perform_ret_of_empty h, Raises, h]
    · obtain ⟨a, s, e⟩ := CallStack.pop_of_pos h
      simp [perform, e, jumpTo, Raises, h]
  | awaitKey x =>
    rcases e : m.keys.choose? m.dialect.keyChoice with - | key <;>
      simp [perform, e, setReg, Raises]
  | skipEqualByte | skipUnequalByte | skipEqual | skipUnequal | skipHeld | skipReleased =>
    simp [perform, skipIf_hold, Raises]
  | addByte x k | draw x y height =>
    simp only [perform]
    split <;> exact (iff_of_eq (or_false _)).symm
  | _ => exact (iff_of_eq (or_false _)).symm

theorem storeRegisters_hold (m : Machine) (count : Nat) :
    (m.storeRegisters count).hold = m.hold := rfl

theorem loadRegisters_hold (m : Machine) (count : Nat) :
    (m.loadRegisters count).hold = m.hold := rfl

theorem attempt_hold (i : Instruction) (m : Machine) : (m.attempt i).hold = m.hold := by
  cases i with
  | store => exact m.storeRegisters_hold 16
  | load => exact m.loadRegisters_hold 16
  | _ => rfl

/-- An instruction that names a register that does not exist raises the flag only if it waits. -/
theorem not_raises_of_fault {f : RegisterFault} (hf : i.registerFault? = some f)
    (hw : m.waits i = false) : ¬ m.Raises i := by
  cases i with
  | jump | jumpOffset | call | ret => cases hf
  | awaitKey x => simpa [waits, Raises, Option.isSome_iff_ne_none] using hw
  | _ => exact id

theorem execute_hold_iff (i : Instruction) (m : Machine) :
    (m.execute i).2.hold = true ↔ m.hold = true ∨ m.Raises i := by
  unfold execute
  rcases hf : i.registerFault? with - | f
  · exact perform_hold_iff i m
  · rcases hw : m.waits i with - | -
    · have hr := not_raises_of_fault hf hw
      simp [attempt_hold, hr]
    · exact perform_hold_iff i m

/-- The end of a tick that executed an instruction lowers the flag. -/
theorem settle_hold (m : Machine) : m.settle.hold = false := by
  rcases h : m.hold with - | - <;> simp [settle, advance, h]

/-- **What a tick does to the flag**: it lowers it if it executes an instruction, and else leaves
it alone. -/
theorem tick_hold_iff (m : Machine) :
    m.tick.2.hold = true ↔ (¬ ∃ i, m.tick.1 = .ok (some i)) ∧ m.hold = true := by
  have ht := m.ticked
  rcases e : m.tick with ⟨r, n⟩
  rw [e] at ht
  cases ht with
  | performed => simp [settle_hold]
  | outOfBounds | refused => simp
  | unknown => simp [advance]

/-! ### Many acts -/

/-- The machine after a sequence of acts. -/
def acted (m : Machine) (acts : List Act) : Machine := acts.foldl act m

/-- Whether an act raises the flag, so that it stays up after it. -/
def Act.Raises (m : Machine) : Act → Prop
  | .execute i => m.Raises i
  | .operate _ => False

/-- Whether an act lowers the flag, if it is up. -/
def Act.Lowers (m : Machine) : Act → Prop
  | .operate .reset => True
  | .operate .tick => ∃ i, m.tick.1 = .ok (some i)
  | _ => False

/-- None of the acts lowers the flag. -/
def Spared (m : Machine) : List Act → Prop
  | [] => True
  | a :: acts => ¬ a.Lowers m ∧ (m.act a).Spared acts

/-- One of the acts is an instruction that raised the flag, and none after it lowers the flag. -/
def LeftRaised (m : Machine) (acts : List Act) : Prop :=
  ∃ before a since, acts = before ++ a :: since ∧ a.Raises (m.acted before) ∧
    ((m.acted before).act a).Spared since

/-- **What an act does to the flag.** -/
theorem act_hold_iff (m : Machine) (a : Act) :
    (m.act a).hold = true ↔ ¬ a.Lowers m ∧ (m.hold = true ∨ a.Raises m) := by
  cases a with
  | execute i => simp [act, execute_hold_iff, Act.Lowers, Act.Raises]
  | operate o =>
    cases o with
    | tick => simp [act, operate, tick_hold_iff, Act.Lowers, Act.Raises]
    | reset => simp [act, operate, reset, Act.Lowers]
    | load program =>
      obtain ⟨memory, e⟩ := load_frame program m
      simp [act, operate, e, Act.Lowers, Act.Raises]
    | press | releaseKeys | checkTimers =>
      simp [act, operate, releaseKeys, checkTimers, Act.Lowers, Act.Raises]

theorem not_leftRaised_nil : ¬ m.LeftRaised [] := by
  rintro ⟨before, a, since, h, -, -⟩
  simp at h

/-- The flag was left up by the first act, or by one after it. -/
theorem leftRaised_cons {a : Act} :
    m.LeftRaised (a :: acts) ↔
      a.Raises m ∧ (m.act a).Spared acts ∨ (m.act a).LeftRaised acts := by
  constructor
  · rintro ⟨_ | ⟨b, before⟩, c, since, h, hraises, hspared⟩
    · obtain ⟨rfl, rfl⟩ := List.cons.inj h
      exact .inl ⟨hraises, hspared⟩
    · obtain ⟨rfl, htail⟩ := List.cons.inj h
      exact .inr ⟨before, c, since, htail, hraises, hspared⟩
  · rintro (⟨hraises, hspared⟩ | ⟨before, c, since, rfl, hraises, hspared⟩)
    · exact ⟨[], a, acts, rfl, hraises, hspared⟩
    · exact ⟨a :: before, c, since, rfl, hraises, hspared⟩

/-- No act both raises the flag and lowers it. -/
theorem Act.Raises.not_lowers {a : Act} (h : a.Raises m) : ¬ a.Lowers m := by
  cases a with
  | execute i => exact id
  | operate o => exact h.elim

/-- **When the flag is up after a sequence of acts**: it was up and is spared, or it was left
up by one of the acts. -/
theorem acted_hold_iff (m : Machine) (acts : List Act) :
    (m.acted acts).hold = true ↔ m.hold = true ∧ m.Spared acts ∨ m.LeftRaised acts := by
  induction acts generalizing m with
  | nil => simp [acted, Spared, not_leftRaised_nil]
  | cons a acts ih =>
    have hcons : (m.acted (a :: acts)).hold = true ↔
        (m.act a).hold = true ∧ (m.act a).Spared acts ∨ (m.act a).LeftRaised acts := ih (m.act a)
    rw [hcons, act_hold_iff, leftRaised_cons, Spared]
    have hnot : a.Raises m → ¬ a.Lowers m := Act.Raises.not_lowers
    grind

theorem not_leftRaised_of_operations (h : ∀ i, .execute i ∉ acts) : ¬ m.LeftRaised acts := by
  rintro ⟨before, a, since, rfl, hraises, -⟩
  cases a with
  | execute i => exact h i (by simp)
  | operate o => exact hraises

/-! ### Ticks after many acts -/

/-- **The flag after a tick that is not refused.**  From power-on let any acts follow, and then a
tick.  The flag is up after it if and only if the tick passed over a word that is no instruction
and the flag was up before it, left by an instruction outside a tick with neither a reset nor an
executed instruction in between.  So it is down after every tick that executed an instruction, and
after every tick at all if no instruction is executed outside the ticks. -/
theorem hold_after_tick {dialect : Dialect} {dice : Dice} {timerRate : Int}
    (hb : build dialect dice timerRate = .ok m) {answer : Option Instruction}
    (ht : (m.acted acts).tick.1 = .ok answer) :
    ((m.acted acts).tick.2.hold = true ↔ answer = none ∧ m.LeftRaised acts) ∧
      ((∀ i, .execute i ∉ acts) → (m.acted acts).tick.2.hold = false) := by
  have hm : m.hold = false := by
    simp only [build, Except.map] at hb
    split at hb
    · cases hb
    · obtain rfl := Except.ok.inj hb
      rfl
  have hup : (m.acted acts).hold = true ↔ m.LeftRaised acts := by
    simp [acted_hold_iff, hm]
  have hiff : (m.acted acts).tick.2.hold = true ↔ answer = none ∧ m.LeftRaised acts := by
    simp only [tick_hold_iff, ht, hup]
    cases answer <;> simp
  refine ⟨hiff, fun h => Bool.eq_false_iff.mpr fun hhold => ?_⟩
  exact not_leftRaised_of_operations h (hiff.mp hhold).2

/-- A machine that was just switched on. -/
def switchedOn : Machine := powerOn {} (.cycling #[]) (second.fdiv 60)

/-- A program whose first word is no instruction. -/
def unknownProgram : Array UInt8 := #[0x80, 0x08]

theorem tick_unknownProgram {m : Machine} (hpc : m.pc = programStart) :
    (m.load unknownProgram).tick = (.ok none, (m.load unknownProgram).advance) := by
  have hf : (m.load unknownProgram).fetch? = some 0x8008 :=
    fetch?_load (k := 0) hpc (by decide) (by decide)
  exact tick_of_unknown hf (e := ⟨0x8008⟩) (by decide)

/-- A wait outside a tick, which raises the flag. -/
def waited : List Act :=
  [.execute (.awaitKey 3), .operate (.checkTimers 7), .operate (.load unknownProgram)]

theorem waited_left_raised :
    build {} (.cycling #[]) 60 = .ok switchedOn ∧
      (switchedOn.acted waited).tick.1 = .ok none ∧ switchedOn.LeftRaised waited ∧
        (switchedOn.acted waited).tick.2.hold = true := by
  have hb : build {} (.cycling #[]) 60 = .ok switchedOn := rfl
  have ht : (switchedOn.acted waited).tick.1 = .ok none :=
    congrArg Prod.fst (tick_unknownProgram (m := switchedOn.acted waited.dropLast) rfl)
  have hl : switchedOn.LeftRaised waited := by
    have hw : switchedOn.keys.choose? switchedOn.dialect.keyChoice = none := by decide
    exact ⟨[], .execute (.awaitKey 3), waited.tail, rfl, hw, id, id, trivial⟩
  exact ⟨hb, ht, hl, (hold_after_tick hb ht).1.mpr ⟨rfl, hl⟩⟩

/-- A jump outside a tick onto a word that is no instruction. -/
def ontoUnknown : List Act := [.operate (.load unknownProgram), .execute (.jump 0x200)]

/-- The flag outlives a tick that passes over a word. -/
theorem unknown_word_keeps_hold :
    build {} (.cycling #[]) 60 = .ok switchedOn ∧
      Instruction.decode 0x1200 = .ok (.jump 0x200) ∧
        (switchedOn.acted ontoUnknown).tick.1 = .ok none ∧
          (switchedOn.acted ontoUnknown).tick.2.hold = true := by
  have ht : (switchedOn.acted ontoUnknown).tick =
      (.ok none, (switchedOn.acted ontoUnknown).advance) :=
    tick_unknownProgram (m := switchedOn.jumpTo 0x200) rfl
  refine ⟨rfl, by decide, ?_, ?_⟩
  · rw [ht]
  · rw [ht]
    rfl

end ChipEight.Machine
