/-
A wait for a key.

A machine waits if the word `Fx0A` is under its program counter and its flag `hold` is down.  While
no key is held, every tick fetches and executes the word anew: it raises the flag, so that the
program counter stays where it is, and lowers it again.  Nothing else happens,

    tick m = m        if no key is held,

so however long the machine waits, only the checks of its timers leave a trace (`Waiting.after`).
The tick that finds keys held keeps the number of one of them, the greatest or the least by the
dialect (`choose?_takes`), and moves on.

Main result: `wait_ends_as_one_tick`.
-/
import ChipEight.Proofs.ProgramCounter
import Mathlib.Order.Bounds.Basic

namespace ChipEight

/-! ### The key that is taken -/

/-- What a wait takes of the held keys: the greatest number, or the least. -/
def KeyChoice.Takes (c : KeyChoice) (p : Keypad) (key : Int) : Prop :=
  match c with
  | .last => IsGreatest {n | p.Holds n} key
  | .lowest => IsLeast {n | p.Holds n} key

/-- The key that is taken is held. -/
theorem KeyChoice.Takes.holds {c : KeyChoice} {p : Keypad} {key : Int} (h : c.Takes p key) :
    p.Holds key := by
  cases c with
  | last => exact h.1
  | lowest => exact h.1

namespace Keypad

variable {p : Keypad} {k : Nat} {n : Int}

theorem bounds_of_holds (h : p.Holds n) : 0 ≤ n ∧ n < 16 := by
  obtain ⟨k, rfl, -⟩ := h
  omega

theorem mem_heldKeys : k ∈ p.heldKeys ↔ p.Holds k := by
  simp only [heldKeys, List.mem_filter, List.mem_range, isHeld_iff_holds, and_iff_right_iff_imp]
  intro h
  have hk := bounds_of_holds h
  omega

/-- A held key is one of the list, by its number. -/
theorem exists_mem_heldKeys (h : p.Holds n) : ∃ k ∈ p.heldKeys, (k : Int) = n := by
  obtain ⟨k, hk⟩ := Int.eq_ofNat_of_zero_le (bounds_of_holds h).1
  subst hk
  exact ⟨k, mem_heldKeys.mpr h, rfl⟩

/-- The list of the held keys ascends. -/
theorem heldKeys_ascends (p : Keypad) : p.heldKeys.Pairwise (· < ·) :=
  List.pairwise_lt_range.filter _

theorem isGreatest_of_getLast? (h : p.heldKeys.getLast? = some k) :
    IsGreatest {n | p.Holds n} k := by
  obtain ⟨before, e⟩ := List.getLast?_eq_some_iff.mp h
  have hascends := p.heldKeys_ascends
  rw [e, List.pairwise_append] at hascends
  refine ⟨mem_heldKeys.mp (by simp [e]), ?_⟩
  intro n hn
  obtain ⟨j, hj, rfl⟩ := exists_mem_heldKeys hn
  rw [e, List.mem_append, List.mem_singleton] at hj
  rcases hj with hj | rfl
  · have hlt := hascends.2.2 j hj k List.mem_cons_self
    omega
  · exact le_refl _

theorem isLeast_of_head? (h : p.heldKeys.head? = some k) : IsLeast {n | p.Holds n} k := by
  obtain ⟨after, e⟩ := List.head?_eq_some_iff.mp h
  have hascends := p.heldKeys_ascends
  rw [e, List.pairwise_cons] at hascends
  refine ⟨mem_heldKeys.mp (by simp [e]), ?_⟩
  intro n hn
  obtain ⟨j, hj, rfl⟩ := exists_mem_heldKeys hn
  rw [e, List.mem_cons] at hj
  rcases hj with rfl | hj
  · exact le_refl _
  · have hlt := hascends.1 j hj
    omega

/-- **A choice of keys takes one end of those that are held.** -/
theorem choose?_takes {c : KeyChoice} (h : p.choose? c = some k) : c.Takes p k := by
  cases c with
  | last => exact isGreatest_of_getLast? h
  | lowest => exact isLeast_of_head? h

theorem exists_choose? (c : KeyChoice) (h : ∃ n, p.Holds n) : ∃ k, p.choose? c = some k := by
  apply Option.ne_none_iff_exists'.mp
  rw [Ne, choose?_eq_none_iff]
  rintro rfl
  obtain ⟨n, j, -, hj⟩ := h
  simp [released] at hj

end Keypad

/-! ### What may happen during a wait -/

/-- The times of the timer checks among some operations. -/
def Operation.checkTime? : Operation → Option Int
  | .checkTimers now => some now
  | _ => none

/-- What is done to a machine that waits: ticks, timer checks, and letting go of keys. -/
def Operation.Idle : Operation → Prop
  | .tick | .checkTimers _ | .releaseKeys => True
  | _ => False

/-- The timers after checks at the given times. -/
def Timers.after (ts : Timers) (times : List Int) : Timers :=
  times.foldl (fun ts now => ts.check now) ts

theorem Timers.after_cons (ts : Timers) (o : Operation) (ops : List Operation) :
    ts.after ((o :: ops).filterMap Operation.checkTime?) =
      (ts.after o.checkTime?.toList).after (ops.filterMap Operation.checkTime?) := by
  rw [List.filterMap_cons]
  cases o.checkTime? <;> rfl

namespace Machine

variable {m : Machine} {x : Fin 16} {keys : Keypad} {ops : List Operation}

/-- What an operation answers.  Only ticks do. -/
def answer? (m : Machine) : Operation → Option (Except Halt (Option Instruction))
  | .tick => some m.tick.1
  | _ => none

/-- What the ticks among some operations answer, in order. -/
def answers (m : Machine) : List Operation → List (Except Halt (Option Instruction))
  | [] => []
  | o :: ops => (m.answer? o).toList ++ (m.operate o).answers ops

/-- The machine waits for a key, and none is held. -/
structure Waiting (x : Fin 16) (m : Machine) : Prop where
  hold : m.hold = false
  word : m.fetch? = some (0xF00A + 0x100 * x.val)
  keys : m.keys = .released

theorem decode_awaitKey (x : Fin 16) :
    Instruction.decode (0xF00A + 0x100 * x.val) = .ok (.awaitKey x.val) := by
  revert x
  decide

/-! ### Single operations -/

/-- **While no key is held, a tick changes nothing.** -/
theorem Waiting.tick (h : Waiting x m) : m.tick = (.ok (some (.awaitKey x.val)), m) := by
  have hp := perform_awaitKey_of_released h.keys x.val
  rw [tick_of_performed h.word (decode_awaitKey x) hp]
  -- the flag is raised, so the tick lowers it and does not move on
  show (_, { m with hold := false }) = (_, m)
  rw [← h.hold]

/-- The timers do not matter to a wait. -/
theorem Waiting.timers (h : Waiting x m) (timers : Timers) : Waiting x { m with timers } :=
  ⟨h.hold, h.word, h.keys⟩

/-- An idle operation checks the timers, if it is such a check, and does nothing else. -/
theorem Waiting.operate (h : Waiting x m) {o : Operation} (ho : o.Idle) :
    m.operate o = { m with timers := m.timers.after o.checkTime?.toList } := by
  cases o with
  | tick =>
    show m.tick.2 = m
    rw [h.tick]
  | checkTimers now => rfl
  | releaseKeys =>
    show { m with keys := .released } = m
    rw [← h.keys]
  | _ => exact ho.elim

/-! ### The whole wait -/

/-- **However long the machine waits, only timer checks leave a trace.** -/
theorem Waiting.after (h : Waiting x m) (hops : ∀ o ∈ ops, o.Idle) :
    m.after ops = { m with timers := m.timers.after (ops.filterMap Operation.checkTime?) } := by
  induction ops generalizing m with
  | nil => rfl
  | cons o ops ih =>
    have ho : o.Idle := hops o List.mem_cons_self
    have hrest : ∀ o ∈ ops, o.Idle := fun o ho => hops o (List.mem_cons_of_mem _ ho)
    show (m.operate o).after ops = _
    -- what is left of the wait is made by a machine that differs in its timers only
    rw [h.operate ho, ih (h.timers _) hrest, Timers.after_cons]

/-- Every tick of the wait executes the word again, and is not refused. -/
theorem Waiting.answers (h : Waiting x m) (hops : ∀ o ∈ ops, o.Idle) :
    m.answers ops = List.replicate (ops.count .tick) (.ok (some (.awaitKey x.val))) := by
  induction ops generalizing m with
  | nil => rfl
  | cons o ops ih =>
    have ho : o.Idle := hops o List.mem_cons_self
    have hrest : ∀ o ∈ ops, o.Idle := fun o ho => hops o (List.mem_cons_of_mem _ ho)
    have hnext := ih (h.timers (m.timers.after o.checkTime?.toList)) hrest
    rw [← h.operate ho] at hnext
    rw [Machine.answers, hnext]
    cases o with
    | tick =>
      rw [answer?, h.tick, List.count_cons_self, List.replicate_succ]
      rfl
    | checkTimers now =>
      have hne : Operation.checkTimers now ≠ .tick := nofun
      rw [List.count_cons_of_ne hne]
      rfl
    | releaseKeys =>
      have hne : Operation.releaseKeys ≠ .tick := nofun
      rw [List.count_cons_of_ne hne]
      rfl
    | _ => exact ho.elim

theorem setReg_val (m : Machine) (x : Fin 16) (value : Int) :
    m.setReg x.val value =
      { m with registers := m.registers.set x (UInt8.ofInt value) x.isLt } := by
  rw [setReg]
  simp only [slot_val]

/-- A tick that finds keys held keeps the number of one of them and moves on. -/
theorem tick_awaitKey_of_choose (hhold : m.hold = false)
    (hword : m.fetch? = some (0xF00A + 0x100 * x.val)) {key : Nat}
    (hkey : m.keys.choose? m.dialect.keyChoice = some key) :
    m.tick = (.ok (some (.awaitKey x.val)), { m with
      pc := m.pc + 2, registers := m.registers.set x (UInt8.ofInt key) x.isLt }) := by
  have hp : m.perform (.awaitKey x.val) = (none, m.setReg x.val key) := by
    simp only [perform, hkey]
  rw [tick_of_performed hword (decode_awaitKey x) hp, setReg_val]
  -- nothing has raised the flag, so the end of the tick moves on
  show (_, if m.hold then _ else _) = _
  rw [hhold, if_neg Bool.false_ne_true, ← advance_pc_of_fetched (pc_of_fetch? hword)]
  rfl

/-- **A wait ends as a single tick would have.**  Let the flag be down and the word `Fx0A` under the
program counter, and let any number of ticks be made while no key is held, with timer checks in
between.  None of the ticks is refused, and the machine is then as it was but for its timers, which
are as the checks alone would have left them.  Now let some keys be held.  The next tick puts one of
them into register `x`, the greatest or the least by the dialect, moves on by one word and changes
nothing else.  So it comes to what it would have come to with no wait before it, the timers
apart. -/
theorem wait_ends_as_one_tick (hhold : m.hold = false)
    (hword : m.fetch? = some (0xF00A + 0x100 * x.val)) (hops : ∀ o ∈ ops, o.Idle)
    (hkeys : ∃ n, keys.Holds n) :
    have start := { m with keys := .released }
    have timers := m.timers.after (ops.filterMap Operation.checkTime?)
    start.answers ops = List.replicate (ops.count .tick) (.ok (some (.awaitKey x.val))) ∧
    start.after ops = { start with timers } ∧
    ∃ last : Machine,
      { start.after ops with keys }.tick = (.ok (some (.awaitKey x.val)), last) ∧
      (∃ key, m.dialect.keyChoice.Takes keys key ∧ last.reg x.val = key ∧
        last = { m with
          keys, timers, pc := m.pc + 2, registers := m.registers.set x (UInt8.ofInt key) x.isLt }) ∧
      last = { { m with keys }.tick.2 with timers } := by
  intro start timers
  have hwaiting : Waiting x start := ⟨hhold, hword, rfl⟩
  have hafter : start.after ops = { start with timers } := hwaiting.after hops
  obtain ⟨key, hkey⟩ := keys.exists_choose? m.dialect.keyChoice hkeys
  have htakes : m.dialect.keyChoice.Takes keys key := Keypad.choose?_takes hkey
  refine ⟨hwaiting.answers hops, hafter, _, ?_, ⟨key, htakes, ?_, rfl⟩, ?_⟩
  · rw [hafter]
    exact tick_awaitKey_of_choose (m := { start with timers, keys }) hhold hword hkey
  · have hbounds := Keypad.bounds_of_holds htakes.holds
    have hreg := m.reg_setReg_self x.val key
    rw [setReg_val, Int.emod_eq_of_lt (by omega) (by omega)] at hreg
    exact hreg
  · rw [tick_awaitKey_of_choose (m := { m with keys }) hhold hword hkey]

/-- A machine in front of a wait for register 3, in the dialect that takes the lowest key. -/
def beforeWait : Machine :=
  (powerOn { keyChoice := .lowest } (.cycling #[]) (second.fdiv 60)).load #[0xF3, 0x0A]

/-- Three ticks without a key, and some timer checks. -/
def patience : List Operation :=
  [.tick, .checkTimers 5, .releaseKeys, .tick, .checkTimers 17000000, .checkTimers 90000000, .tick]

/-- Keys 4, 9 and 12 are held. -/
def threeKeys : Keypad := ⟨(((Vector.replicate 16 false).set 4 true).set 9 true).set 12 true⟩

theorem patience_takes_lowest :
    beforeWait.hold = false ∧ beforeWait.fetch? = some 0xF30A ∧ (∀ o ∈ patience, o.Idle) ∧
      threeKeys.Holds 9 ∧
      beforeWait.answers patience = List.replicate 3 (.ok (some (.awaitKey 3))) ∧
      ∃ last, { beforeWait.after patience with keys := threeKeys }.tick.2 = last ∧
        last.reg 3 = 4 ∧ last.pc = 0x202 := by
  have hword : beforeWait.fetch? = some 0xF30A := fetch?_load (k := 0) rfl (by decide) (by decide)
  have hops : ∀ o ∈ patience, o.Idle := by
    simp [patience, Operation.Idle]
  have hholds : threeKeys.Holds 9 := by decide
  obtain ⟨hanswers, -, last, htick, ⟨key, htakes, hreg, hlast⟩, -⟩ :=
    wait_ends_as_one_tick (m := beforeWait) (x := 3) rfl hword hops ⟨9, hholds⟩
  have hleast : IsLeast {n | threeKeys.Holds n} key := htakes
  have hfour : IsLeast {n | threeKeys.Holds n} 4 := by
    refine ⟨show threeKeys.Holds 4 by decide, ?_⟩
    rintro n ⟨k, rfl, hk⟩
    revert k
    decide
  refine ⟨rfl, hword, hops, hholds, hanswers, last, congrArg Prod.snd htick, ?_, ?_⟩
  · exact hreg.trans (hleast.unique hfour)
  · rw [hlast]
    rfl

end Machine

end ChipEight
