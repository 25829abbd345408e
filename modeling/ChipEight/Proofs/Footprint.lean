/-
The footprint of an instruction.

An instruction may move the program counter and raise `hold`.  Of the rest of the machine it
writes to the parts that `names` lists for it, and to no others:

    Fx33, Fx55     the cells (index + k) mod 4096, for k < 3 or k ≤ x
    00E0, Dxyn     the screen
    2nnn, 00EE     the stack
    Cxkk           the dice, which are rolled once
    ...

`Confined named m m'` says that `m'` differs from `m` in the named parts only.  What one write does
is said once for each kind of write, and an instruction is confined because it is one write or two
in a row (`Confined.trans`).  Registers that do not exist, and refusals, make no exception.

Main result: `execute_confined`.
-/
import ChipEight.Proofs.Decoding

namespace ChipEight

/-- A part of a machine that instructions may write to. -/
inductive Part
  | cell (a : Fin 4096)
  | register (x : Fin 16)
  | index
  | stack
  | delay
  | sound
  | screen
  | dice
  deriving DecidableEq, Repr

/-- Two machines agree on a part. -/
def Part.Same (m m' : Machine) : Part → Prop
  | cell a => m'.memory.get a = m.memory.get a
  | register x => m'.registers.get x = m.registers.get x
  | index => m'.index = m.index
  | stack => m'.stack = m.stack
  | delay => m'.timers.delay = m.timers.delay
  | sound => m'.timers.sound = m.timers.sound
  | screen => m'.screen = m.screen
  | dice => m'.dice = m.dice

/-- How often an instruction rolls the dice. -/
def Instruction.rolls : Instruction → Nat
  | random .. => 1
  | _ => 0

namespace Machine

variable {m m' m'' : Machine} {named named' : List Part} {p : Part}

/-- The first `count` cells from the index on. -/
def cells (m : Machine) (count : Nat) : List Part :=
  (List.range count).map fun k => .cell (m.cell k)

/-- The register with a number. -/
def register (x : Int) : Part := .register (slot x)

/-- The first `count` registers. -/
def firstRegisters (count : Nat) : List Part :=
  (List.range count).map fun k : Nat => register k

/-- The parts that an instruction names. -/
def names (m : Machine) : Instruction → List Part
  | .sys _ | .jump _ | .jumpOffset _ | .skipEqualByte .. | .skipUnequalByte .. | .skipEqual ..
  | .skipUnequal .. | .skipHeld _ | .skipReleased _ => []
  | .ret | .call _ => [.stack]
  | .clear => [.screen]
  | .draw .. => [.screen, register flag]
  | .loadByte x _ | .copy x _ | .or x _ | .and x _ | .xor x _ | .readDelay x | .awaitKey x =>
    [register x]
  | .add x _ | .sub x _ | .subFrom x _ | .shiftRight x | .shiftLeft x =>
    [register x, register flag]
  | .addByte x _ =>
    if m.dialect.addByteSetsFlag then [register x, register flag] else [register x]
  | .random x _ => [.dice, register x]
  | .loadIndex _ | .glyph _ => [.index]
  | .addIndex _ => [.index, register flag]
  | .decimal _ => m.cells 3
  | .store x => m.cells (x + 1).toNat
  | .load x => firstRegisters (x + 1).toNat
  | .setDelay _ => [.delay]
  | .setSound _ => [.sound]

/-- Apart from the program counter and `hold`, two machines differ in the named parts only.  No
list can name the keys, the dialect, the period of the timers, or the faces of the dice. -/
structure Confined (named : List Part) (m m' : Machine) : Prop where
  same : ∀ p, p ∉ named → p.Same m m'
  keys : m'.keys = m.keys := by rfl
  dialect : m'.dialect = m.dialect := by rfl
  period : m'.timers.period = m.timers.period := by rfl
  faces : m'.dice.faces = m.dice.faces := by rfl

namespace Confined

theorem refl (m : Machine) : Confined [] m m where
  same p _ := by cases p <;> rfl

/-- One change after the other. -/
theorem trans (h : Confined named m m') (h' : Confined named' m' m'') :
    Confined (named ++ named') m m'' where
  same p hp := by
    rw [List.mem_append, not_or] at hp
    have hsame := h.same p hp.1
    have hsame' := h'.same p hp.2
    cases p <;> exact Eq.trans hsame' hsame
  keys := h'.keys.trans h.keys
  dialect := h'.dialect.trans h.dialect
  period := h'.period.trans h.period
  faces := h'.faces.trans h.faces

/-- More may be named. -/
theorem mono (h : Confined named m m') (hs : named ⊆ named') : Confined named' m m' :=
  { h with same := fun p hp => h.same p fun hmem => hp (hs hmem) }

/-- If nothing is named, only the flow of control may have changed. -/
theorem eq_of_nil (h : Confined [] m m') : m' = { m with pc := m'.pc, hold := m'.hold } := by
  have hmemory : m'.memory = m.memory :=
    Vector.ext fun a ha => h.same (.cell ⟨a, ha⟩) List.not_mem_nil
  have hregisters : m'.registers = m.registers :=
    Vector.ext fun x hx => h.same (.register ⟨x, hx⟩) List.not_mem_nil
  have hindex : m'.index = m.index := h.same .index List.not_mem_nil
  have hstack : m'.stack = m.stack := h.same .stack List.not_mem_nil
  have hdelay : m'.timers.delay = m.timers.delay := h.same .delay List.not_mem_nil
  have hsound : m'.timers.sound = m.timers.sound := h.same .sound List.not_mem_nil
  have hscreen : m'.screen = m.screen := h.same .screen List.not_mem_nil
  have hdice : m'.dice = m.dice := h.same .dice List.not_mem_nil
  obtain ⟨-, hkeys, hdialect, hperiod, -⟩ := h
  obtain ⟨_, _, _, _, _, ⟨_, _, _⟩, _, _, _, _, _⟩ := m
  obtain ⟨_, _, _, _, _, ⟨_, _, _⟩, _, _, _, _, _⟩ := m'
  subst hmemory hregisters hindex hstack hdelay hsound hscreen hdice hkeys hdialect hperiod
  rfl

end Confined

/-! ### Single writes -/

theorem confined_control (m : Machine) (pc : Int) (hold : Bool) :
    Confined [] m { m with pc, hold } where
  same p _ := by cases p <;> rfl

theorem confined_jumpTo (m : Machine) (address : Int) : Confined [] m (m.jumpTo address) :=
  m.confined_control address true

theorem confined_skipIf (m : Machine) (condition : Bool) : Confined [] m (m.skipIf condition) := by
  cases condition
  · exact .refl m
  · exact m.confined_control m.advance.pc m.hold

theorem confined_index (m : Machine) (index : Int) : Confined [.index] m { m with index } where
  same p hp := by
    cases p with
    | index => simp at hp
    | _ => rfl

theorem confined_stack (m : Machine) (stack : CallStack 16) :
    Confined [.stack] m { m with stack } where
  same p hp := by
    cases p with
    | stack => simp at hp
    | _ => rfl

theorem confined_screen (m : Machine) (screen : Framebuffer 64 32) :
    Confined [.screen] m { m with screen } where
  same p hp := by
    cases p with
    | screen => simp at hp
    | _ => rfl

theorem confined_delay (m : Machine) (delay : Countdown) :
    Confined [.delay] m { m with timers := { m.timers with delay } } where
  same p hp := by
    cases p with
    | delay => simp at hp
    | _ => rfl

theorem confined_sound (m : Machine) (sound : Countdown) :
    Confined [.sound] m { m with timers := { m.timers with sound } } where
  same p hp := by
    cases p with
    | sound => simp at hp
    | _ => rfl

theorem confined_roll (m : Machine) : Confined [.dice] m { m with dice := m.dice.roll.2 } where
  same p hp := by
    cases p with
    | dice => simp at hp
    | _ => rfl

theorem confined_setReg (m : Machine) (x value : Int) :
    Confined [register x] m (m.setReg x value) where
  same p hp := by
    cases p with
    | register y =>
      have hne : (slot x : Nat) ≠ y := fun e => hp (by simp [register, Fin.ext e])
      exact Vector.getElem_set_ne (slot x).isLt y.isLt hne
    | _ => rfl

theorem confined_setWithFlag (m : Machine) (x value : Int) (raised : Bool) :
    Confined [register x, register flag] m (m.setWithFlag x value raised) :=
  (confined_setReg m x value).trans (confined_setReg _ flag _)

/-! ### Blocks of cells and of registers -/

theorem cell_mem_cells {a : Fin 4096} {count : Nat} :
    Part.cell a ∈ m.cells count ↔ ∃ k < count, m.cell k = a := by
  simp [cells]

theorem cells_subset (m : Machine) {count count' : Nat} (h : count ≤ count') :
    m.cells count ⊆ m.cells count' :=
  List.map_subset _ (List.range_subset.mpr h)

theorem register_mem_firstRegisters {y : Fin 16} {count : Nat} :
    Part.register y ∈ firstRegisters count ↔ ∃ k < count, slot (k : Nat) = y := by
  simp [firstRegisters, register]

theorem firstRegisters_subset {count count' : Nat} (h : count ≤ count') :
    firstRegisters count ⊆ firstRegisters count' :=
  List.map_subset _ (List.range_subset.mpr h)

/-- What is written place by place is the same as before in every other place. -/
theorem get_foldl_set {α : Type} {n : Nat} (place : Nat → Fin n) (value : Nat → α) {a : Fin n}
    {ks : List Nat} (h : ∀ k ∈ ks, place k ≠ a) (v : Vector α n) :
    (ks.foldl (fun v k => v.set (place k) (value k)) v).get a = v.get a := by
  induction ks generalizing v with
  | nil => rfl
  | cons k ks ih =>
    have hk : (place k : Nat) ≠ a := fun e => h k (by simp) (Fin.ext e)
    rw [List.foldl_cons, ih fun k hk => h k (List.mem_cons_of_mem _ hk)]
    exact Vector.getElem_set_ne (place k).isLt a.isLt hk

theorem confined_storeRegisters (m : Machine) (count : Nat) :
    Confined (m.cells count) m (m.storeRegisters count) where
  same p hp := by
    cases p with
    | cell a =>
      refine get_foldl_set m.cell _ (fun k hk e => hp ?_) m.memory
      exact cell_mem_cells.mpr ⟨k, List.mem_range.mp hk, e⟩
    | _ => rfl

theorem confined_loadRegisters (m : Machine) (count : Nat) :
    Confined (firstRegisters count) m (m.loadRegisters count) where
  same p hp := by
    cases p with
    | register y =>
      refine get_foldl_set (fun k : Nat => slot k) _ (fun k hk e => hp ?_) m.registers
      exact register_mem_firstRegisters.mpr ⟨k, List.mem_range.mp hk, e⟩
    | _ => rfl

theorem confined_storeDecimal (m : Machine) (x : Int) :
    Confined (m.cells 3) m (m.storeDecimal x) where
  same p hp := by
    cases p with
    | cell a =>
      have hne : ∀ k < 3, (m.cell k : Nat) ≠ a := fun k hk e =>
        hp (cell_mem_cells.mpr ⟨k, hk, Fin.ext e⟩)
      show (((m.memory.set _ _).set _ _).set _ _)[(a : Nat)] = m.memory[(a : Nat)]
      rw [Vector.getElem_set_ne _ _ (hne 2 (by omega)),
        Vector.getElem_set_ne _ _ (hne 1 (by omega)), Vector.getElem_set_ne _ _ (hne 0 (by omega))]
    | _ => rfl

/-! ### The instructions -/

/-- **The footprint of an instruction whose registers exist.** -/
theorem perform_confined (i : Instruction) (m : Machine) :
    Confined (m.names i) m (m.perform i).2 := by
  cases i with
  | sys => exact .refl m
  | jump | jumpOffset => exact confined_jumpTo ..
  | skipEqualByte | skipUnequalByte | skipEqual | skipUnequal | skipHeld | skipReleased =>
    exact confined_skipIf ..
  | ret =>
    simp only [perform]
    split
    · exact (confined_stack m _).trans (confined_jumpTo ..)
    · exact confined_stack ..
  | call a =>
    simp only [perform]
    split
    · exact (confined_stack m _).trans (confined_jumpTo ..)
    · exact confined_stack ..
  | clear => exact confined_screen ..
  | draw x y height =>
    simp only [perform]
    split
    · exact (confined_screen m _).trans (confined_setReg ..)
    · exact (confined_screen m _).mono (by simp [names])
  | loadByte | copy | or | and | xor | readDelay => exact confined_setReg ..
  | awaitKey x =>
    simp only [perform]
    split
    · exact (m.confined_control m.pc true).mono (List.nil_subset _)
    · exact confined_setReg ..
  | add | sub | subFrom | shiftRight | shiftLeft => exact confined_setWithFlag ..
  | addByte x k =>
    simp only [perform, names]
    split
    · exact confined_setWithFlag ..
    · exact confined_setReg ..
  | random x mask => exact (confined_roll m).trans (confined_setReg ..)
  | loadIndex | glyph => exact confined_index ..
  | addIndex x => exact (confined_index m _).trans (confined_setReg ..)
  | decimal x => exact m.confined_storeDecimal x
  | store x => exact m.confined_storeRegisters _
  | load x => exact m.confined_loadRegisters _
  | setDelay => exact confined_delay ..
  | setSound => exact confined_sound ..

/-- A block that reaches a register that does not exist reaches all that do. -/
theorem le_of_block_fault {x : Int} {f : RegisterFault}
    (h : (Instruction.store x).registerFault? = some f ∨
      (Instruction.load x).registerFault? = some f) : 16 ≤ x := by
  refine Int.not_lt.mp fun hx => ?_
  have hfits : (Operand.register (min 16 (max 0 x))).Fits := ⟨by omega, by omega⟩
  simp [Instruction.registerFault?, Instruction.registerUses, RegisterUse.fault?,
    RegisterUse.faultAt?_of_fits hfits] at h

/-- What an instruction does before it uses a register that does not exist is confined, too. -/
theorem attempt_confined {i : Instruction} {f : RegisterFault} (h : i.registerFault? = some f)
    (m : Machine) : Confined (m.names i) m (m.attempt i) := by
  cases i with
  | random x mask => exact m.confined_roll.mono (by simp [names])
  | store x =>
    have hx := le_of_block_fault (.inl h)
    exact (m.confined_storeRegisters 16).mono (m.cells_subset (by omega))
  | load x =>
    have hx := le_of_block_fault (.inr h)
    exact (m.confined_loadRegisters 16).mono (firstRegisters_subset (by omega))
  | _ => exact (Confined.refl m).mono (List.nil_subset _)

theorem execute_confined (i : Instruction) (m : Machine) :
    Confined (m.names i) m (m.execute i).2 := by
  unfold execute
  rcases hf : i.registerFault? with - | f
  · exact perform_confined i m
  · rcases m.waits i with - | -
    · exact attempt_confined hf m
    · exact perform_confined i m

/-! ### The dice -/

theorem dice_not_mem_names {i : Instruction} (h : i.rolls = 0) : Part.dice ∉ m.names i := by
  cases i with
  | random => cases h
  | addByte x k =>
    simp only [names]
    split <;> simp [register]
  | _ => simp [names, cells, firstRegisters, register]

/-- An instruction rolls the dice as often as it says. -/
theorem execute_rolled (i : Instruction) (m : Machine) :
    (m.execute i).2.dice.rolled = m.dice.rolled + i.rolls := by
  rcases Nat.eq_zero_or_pos i.rolls with h | h
  · have hsame : (m.execute i).2.dice = m.dice :=
      (execute_confined i m).same .dice (dice_not_mem_names h)
    rw [hsame, h, Nat.add_zero]
  · cases i with
    | random x mask =>
      unfold execute
      split <;> rfl
    | _ => exact absurd h (Nat.lt_irrefl 0)

/-- **The footprint of an instruction.**  Executing an instruction, in any state and whether it is
refused or not, changes nothing but the program counter, `hold` and the parts that the instruction
names.  The keys, the dialect and the period of the timers never change.  A random number takes
one roll of the dice, and no other instruction rolls them. -/
theorem execute_footprint (i : Instruction) (m : Machine) :
    Confined (m.names i) m (m.execute i).2 ∧
      (m.execute i).2.dice.rolled = m.dice.rolled + i.rolls ∧
        (m.names i = [] → ∃ pc hold, (m.execute i).2 = { m with pc, hold }) := by
  have hconfined := execute_confined i m
  refine ⟨hconfined, execute_rolled i m, fun hnil => ?_⟩
  rw [hnil] at hconfined
  exact ⟨_, _, hconfined.eq_of_nil⟩

/-- A block of cells goes on at the beginning of memory. -/
example : names { powerOn {} (.cycling #[]) 1 with index := 4095 } (.store 1) =
    [.cell 4095, .cell 0] := by decide

end Machine

end ChipEight
