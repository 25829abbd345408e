/-
Reset and power-on.

Whatever was done to a machine, a reset brings it back to the state in which it was switched on,

    reset m  =  powerOn dialect dice period,

but for the dice, which lie where they have come to.  Of the machine as it is, a reset takes over
the dialect, the period of the timers and the dice.  So two things remain to be shown: that nothing
that may be done to a machine changes the first two, or the faces of the dice (`Kept.act`), and that
the place in the dice cannot be told.

For the second, take a machine and its twin: the same machine with other dice, which are going to
show the same faces from now on.  Every act has the same answer on both and leaves twins again
(`Twin.act`), so a sequence of acts has the same answers on both, however long it is.  Main result:
`reset_as_new`.
-/
import ChipEight.Proofs.Footprint
import ChipEight.Proofs.Hold

namespace ChipEight

namespace Dice

/-- Two dice are going to show the same faces. -/
def SameDraws (d d' : Dice) : Prop := ∀ n, d.faces (d.rolled + n) = d'.faces (d'.rolled + n)

variable {d d' : Dice}

/-- The next draw is the same, and so are those after it. -/
theorem SameDraws.roll (h : d.SameDraws d') :
    d.roll.1 = d'.roll.1 ∧ d.roll.2.SameDraws d'.roll.2 := by
  refine ⟨h 0, fun n => ?_⟩
  show d.faces (d.rolled + 1 + n) = d'.faces (d'.rolled + 1 + n)
  rw [Nat.add_assoc, Nat.add_assoc]
  exact h (1 + n)

end Dice

namespace Machine

variable {m m' : Machine}

/-! ### What no act changes -/

/-- What a machine keeps of the one it comes from: the dialect, the period of the timers and the
faces of the dice.  The dice are never rolled back. -/
structure Kept (m m' : Machine) : Prop where
  dialect : m'.dialect = m.dialect := by rfl
  period : m'.timers.period = m.timers.period := by rfl
  faces : m'.dice.faces = m.dice.faces := by rfl
  rolled : m.dice.rolled ≤ m'.dice.rolled := by exact Nat.le_refl _

/-- A reset takes over the dialect, the dice and the period, and nothing else. -/
theorem reset_eq (m : Machine) : m.reset = powerOn m.dialect m.dice m.timers.period := rfl

/-- How a machine is switched on.  Memory is the same for all machines, and what is in it is left
open, so that nobody has to look at it. -/
theorem powerOn_frame : ∃ memory, ∀ dialect dice period, powerOn dialect dice period =
    { memory, registers := .replicate 16 0, index := 0, pc := programStart, stack := .empty,
      timers := .stopped period, screen := .blank, keys := .released, hold := false,
      dialect, dice } :=
  ⟨initialMemory, fun _ _ _ => rfl⟩

namespace Kept

theorem refl (m : Machine) : m.Kept m where

theorem trans {m'' : Machine} (h : m.Kept m') (h' : m'.Kept m'') : m.Kept m'' where
  dialect := h'.dialect.trans h.dialect
  period := h'.period.trans h.period
  faces := h'.faces.trans h.faces
  rolled := Nat.le_trans h.rolled h'.rolled

theorem execute (i : Instruction) (m : Machine) : m.Kept (m.execute i).2 where
  dialect := (execute_confined i m).dialect
  period := (execute_confined i m).period
  faces := (execute_confined i m).faces
  rolled := by
    rw [execute_rolled]
    exact Nat.le_add_right ..

theorem settle (m : Machine) : m.Kept m.settle := by
  unfold Machine.settle
  split <;> exact {}

theorem tick (m : Machine) : m.Kept m.tick.2 := by
  have ht := m.ticked
  rcases e : m.tick with ⟨answer, next⟩
  rw [e] at ht
  cases ht with
  | outOfBounds | refused => exact refl m
  | unknown => exact {}
  | @performed w i n hw hd hp =>
    have hexecute := execute i m
    rw [execute_of_fits (Instruction.decode_fits hd), hp] at hexecute
    exact hexecute.trans (settle n)

theorem reset (m : Machine) : m.Kept m.reset := by
  obtain ⟨memory, e⟩ := powerOn_frame
  rw [reset_eq, e]
  exact {}

theorem act (a : Act) (m : Machine) : m.Kept (m.act a) := by
  cases a with
  | execute i => exact execute i m
  | operate o =>
    cases o with
    | tick => exact tick m
    | reset => exact reset m
    | load program =>
      obtain ⟨memory, e⟩ := load_frame program m
      show m.Kept (m.load program)
      rw [e]
      exact {}
    | press | releaseKeys | checkTimers => exact {}

/-- **Nothing that may be done to a machine changes what it keeps.** -/
theorem acted (acts : List Act) (m : Machine) : m.Kept (m.acted acts) := by
  induction acts generalizing m with
  | nil => exact refl m
  | cons a acts ih => exact (act a m).trans (ih (m.act a))

end Kept

/-! ### Twins -/

/-- The same machine with other dice, which are going to show the same faces. -/
def Twin (m m' : Machine) : Prop := ∃ dice, m.dice.SameDraws dice ∧ m' = { m with dice }

namespace Twin

theorem perform (h : m.Twin m') (i : Instruction) :
    (m.perform i).1 = (m'.perform i).1 ∧ (m.perform i).2.Twin (m'.perform i).2 := by
  obtain ⟨dice, hd, rfl⟩ := h
  have hreg : ∀ x, reg { m with dice } x = m.reg x := fun _ => rfl
  have hsprite : ∀ height, spriteAt { m with dice } height = m.spriteAt height := fun _ => rfl
  cases i with
  | random x mask =>
    obtain ⟨hbyte, hlater⟩ := hd.roll
    simp only [Machine.perform]
    rw [hbyte]
    exact ⟨trivial, dice.roll.2, hlater, rfl⟩
  | skipEqualByte | skipUnequalByte | skipEqual | skipUnequal | skipHeld | skipReleased =>
    simp only [Machine.perform, skipIf, hreg]
    refine ⟨trivial, ?_⟩
    split <;> exact ⟨dice, hd, rfl⟩
  | ret | call | awaitKey | draw =>
    simp only [Machine.perform, hreg, hsprite]
    split <;> exact ⟨rfl, dice, hd, rfl⟩
  | addByte =>
    simp only [Machine.perform, hreg]
    refine ⟨trivial, ?_⟩
    split <;> exact ⟨dice, hd, rfl⟩
  | _ => exact ⟨rfl, dice, hd, rfl⟩

theorem storeRegisters (h : m.Twin m') (count : Nat) :
    (m.storeRegisters count).Twin (m'.storeRegisters count) := by
  obtain ⟨dice, hd, rfl⟩ := h
  exact ⟨dice, hd, rfl⟩

theorem loadRegisters (h : m.Twin m') (count : Nat) :
    (m.loadRegisters count).Twin (m'.loadRegisters count) := by
  obtain ⟨dice, hd, rfl⟩ := h
  exact ⟨dice, hd, rfl⟩

theorem attempt (h : m.Twin m') (i : Instruction) : (m.attempt i).Twin (m'.attempt i) := by
  cases i with
  | random x mask =>
    obtain ⟨dice, hd, rfl⟩ := h
    exact ⟨dice.roll.2, hd.roll.2, rfl⟩
  | store => exact h.storeRegisters 16
  | load => exact h.loadRegisters 16
  | _ => exact h

theorem execute (h : m.Twin m') (i : Instruction) :
    (m.execute i).1 = (m'.execute i).1 ∧ (m.execute i).2.Twin (m'.execute i).2 := by
  have hwaits : m.waits i = m'.waits i := by
    obtain ⟨dice, -, rfl⟩ := h
    rfl
  unfold Machine.execute
  rw [← hwaits]
  split
  · exact h.perform i
  · split
    · exact h.perform i
    · exact ⟨rfl, h.attempt i⟩

theorem advance (h : m.Twin m') : m.advance.Twin m'.advance := by
  obtain ⟨dice, hd, rfl⟩ := h
  exact ⟨dice, hd, rfl⟩

theorem settle (h : m.Twin m') : m.settle.Twin m'.settle := by
  obtain ⟨dice, hd, rfl⟩ := h
  unfold Machine.settle
  dsimp only
  split <;> exact ⟨dice, hd, rfl⟩

theorem tick (h : m.Twin m') : m.tick.1 = m'.tick.1 ∧ m.tick.2.Twin m'.tick.2 := by
  have hfetch : m'.fetch? = m.fetch? ∧ m'.pc = m.pc := by
    obtain ⟨dice, -, rfl⟩ := h
    exact ⟨rfl, rfl⟩
  have ht := m.ticked
  rcases e : m.tick with ⟨answer, next⟩
  rw [e] at ht
  cases ht with
  | outOfBounds hw =>
    rw [tick_of_outside (hfetch.1.trans hw), hfetch.2]
    exact ⟨rfl, h⟩
  | unknown hw hd =>
    rw [tick_of_unknown (hfetch.1.trans hw) hd]
    exact ⟨rfl, h.advance⟩
  | @performed w i n hw hd hp =>
    obtain ⟨hfault, htwin⟩ := h.perform i
    rw [hp] at hfault htwin
    have hp' : m'.perform i = (none, (m'.perform i).2) := Prod.ext hfault.symm rfl
    rw [tick_of_performed (hfetch.1.trans hw) hd hp']
    exact ⟨rfl, htwin.settle⟩
  | @refused w i f hw hd hp =>
    obtain ⟨hfault, -⟩ := h.perform i
    rw [hp] at hfault
    have hp' : m'.perform i = (some (.stack f), (m'.perform i).2) := Prod.ext hfault.symm rfl
    have hsame : (m'.perform i).2 = m' := (perform_of_fault (Instruction.decode_fits hd) hp').2
    rw [hsame] at hp'
    rw [tick_of_refused (hfetch.1.trans hw) hd hp']
    exact ⟨rfl, h⟩

theorem load (h : m.Twin m') (program : Array UInt8) :
    (m.load program).Twin (m'.load program) := by
  obtain ⟨dice, hd, rfl⟩ := h
  -- the new memory, whatever it is, is the same for the twin
  have hframe : ∃ memory, ∀ dice', Machine.load program { m with dice := dice' } =
      { m with memory, dice := dice' } := ⟨(m.load program).memory, fun _ => rfl⟩
  obtain ⟨memory, e⟩ := hframe
  have e' : m.load program = { m with memory } := e m.dice
  rw [e', e]
  exact ⟨dice, hd, rfl⟩

theorem reset (h : m.Twin m') : m.reset.Twin m'.reset := by
  obtain ⟨dice, hd, rfl⟩ := h
  obtain ⟨memory, e⟩ := powerOn_frame
  rw [reset_eq, reset_eq, e, e]
  exact ⟨dice, hd, rfl⟩

end Twin

/-! ### Answers -/

/-- What the owner of a machine is told about an act. -/
inductive Answer
  /-- nothing -/
  | silence
  /-- how many bytes of a program were loaded -/
  | loaded (size : Nat)
  /-- the instruction of a tick, or what halts the machine -/
  | ticked (answer : Except Halt (Option Instruction))
  /-- why an instruction is refused, if it is -/
  | executed (fault : Option Fault)

/-- The answer to an act. -/
def answerTo (m : Machine) : Act → Answer
  | .operate (.load program) => .loaded (loadedSize program)
  | .operate .tick => .ticked m.tick.1
  | .operate _ => .silence
  | .execute i => .executed (m.execute i).1

/-- The answers to a sequence of acts. -/
def answersTo (m : Machine) : List Act → List Answer
  | [] => []
  | a :: acts => m.answerTo a :: (m.act a).answersTo acts

/-- **Twins answer alike and remain twins.** -/
theorem Twin.act (h : m.Twin m') (a : Act) :
    m.answerTo a = m'.answerTo a ∧ (m.act a).Twin (m'.act a) := by
  cases a with
  | execute i =>
    obtain ⟨hfault, htwin⟩ := h.execute i
    exact ⟨congrArg Answer.executed hfault, htwin⟩
  | operate o =>
    cases o with
    | tick =>
      obtain ⟨hanswer, htwin⟩ := h.tick
      exact ⟨congrArg Answer.ticked hanswer, htwin⟩
    | load program =>
      exact ⟨rfl, h.load program⟩
    | reset =>
      exact ⟨rfl, h.reset⟩
    | press | releaseKeys | checkTimers =>
      obtain ⟨dice, hd, rfl⟩ := h
      exact ⟨rfl, dice, hd, rfl⟩

theorem Twin.acted (h : m.Twin m') (acts : List Act) :
    m.answersTo acts = m'.answersTo acts ∧ (m.acted acts).Twin (m'.acted acts) := by
  induction acts generalizing m m' with
  | nil => exact ⟨rfl, h⟩
  | cons a acts ih =>
    obtain ⟨hanswer, htwin⟩ := h.act a
    obtain ⟨hanswers, hlast⟩ := ih htwin
    refine ⟨?_, hlast⟩
    show m.answerTo a :: _ = m'.answerTo a :: _
    rw [hanswer, hanswers]

/-! ### Reset and power-on -/

/-- Whether a machine can be built does not depend on the dice. -/
theorem build_dice {dialect : Dialect} {dice : Dice} {timerRate : Int}
    (hb : build dialect dice timerRate = .ok m) :
    m = powerOn dialect dice m.timers.period ∧
      ∀ other, build dialect other timerRate = .ok (powerOn dialect other m.timers.period) := by
  rcases hp : periodOf timerRate with e | period
  · rw [build, hp] at hb
    cases hb
  · have hbuild : ∀ other, build dialect other timerRate =
        .ok (powerOn dialect other period) := by
      intro other
      rw [build, hp]
      rfl
    obtain rfl := Except.ok.inj ((hbuild dice).symm.trans hb)
    exact ⟨rfl, hbuild⟩

/-- **A machine that is reset is as good as new.**  Switch a machine on, do anything to it, and
reset it.  It is in the state of a machine that is built in the same dialect, with the same timer
rate and with the dice as they lie; and these are the old ones, rolled so many times.  From there
on it cannot be told from a new machine whose dice are going to show the same faces: every sequence
of acts has the same answers on both, and leaves them equal but for the dice. -/
theorem reset_as_new {dialect : Dialect} {dice : Dice} {timerRate : Int}
    (hb : build dialect dice timerRate = .ok m) (acts : List Act) :
    let worn := m.acted acts
    worn.dice.faces = dice.faces ∧ dice.rolled ≤ worn.dice.rolled ∧
      build dialect worn.dice timerRate = .ok worn.reset ∧
      ∀ other fresh, build dialect other timerRate = .ok fresh → other.SameDraws worn.dice →
        ∀ later, fresh.answersTo later = worn.reset.answersTo later ∧
          (fresh.acted later).Twin (worn.reset.acted later) := by
  intro worn
  obtain ⟨hm, hbuild⟩ := build_dice hb
  have hdialect : m.dialect = dialect := by
    rw [hm]
    rfl
  have hdice : m.dice = dice := by
    rw [hm]
    rfl
  have hkept : m.Kept worn := Kept.acted acts m
  have hreset : worn.reset = powerOn dialect worn.dice m.timers.period := by
    rw [reset_eq, hkept.dialect, hkept.period, hdialect]
  rw [hreset]
  refine ⟨hdice ▸ hkept.faces, hdice ▸ hkept.rolled, hbuild worn.dice, ?_⟩
  intro other fresh hfresh hdraws later
  rw [hbuild] at hfresh
  obtain rfl := Except.ok.inj hfresh
  have htwin : (powerOn dialect other m.timers.period).Twin
      (powerOn dialect worn.dice m.timers.period) := ⟨worn.dice, hdraws, rfl⟩
  exact htwin.acted later

/-- A machine whose dice show 1 and 2 by turns. -/
def gambler : Machine := powerOn {} (.cycling #[1, 2]) (second.fdiv 60)

/-- Load a program, roll once, and go where there is no program. -/
def gamble : List Act :=
  [.operate (.load #[0xC3, 0xFF]), .execute (.random 3 0xFF), .execute (.jump 0xFFF),
    .operate .tick]

/-- After one roll, the machine is as good as a new one with dice that were rolled three times. -/
theorem gambler_as_new :
    build {} (.cycling #[1, 2]) 60 = .ok gambler ∧ (gambler.acted gamble).dice.rolled = 1 ∧
      ∀ later, answersTo { gambler with dice := { Dice.cycling #[1, 2] with rolled := 3 } } later =
        (gambler.acted gamble).reset.answersTo later := by
  have hb : build {} (.cycling #[1, 2]) 60 = .ok gambler := rfl
  obtain ⟨hfaces, -, -, hlater⟩ := reset_as_new hb gamble
  have hrolled : (gambler.acted gamble).dice.rolled = 1 := by decide
  have hdraws : ({ Dice.cycling #[1, 2] with rolled := 3 } : Dice).SameDraws
      (gambler.acted gamble).dice := by
    intro n
    rw [hfaces, hrolled]
    show #[1, 2].getD ((3 + n) % 2) 0 = #[1, 2].getD ((1 + n) % 2) (0 : UInt8)
    rw [show 3 + n = 1 + n + 2 by omega, Nat.add_mod_right]
  exact ⟨hb, hrolled, fun later => (hlater _ _ rfl hdraws later).1⟩

end Machine

end ChipEight
