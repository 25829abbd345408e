/-
Execution without time.

Erase from a machine all that has to do with time: its timers, and whether its screen was shown.
Only one instruction can tell the difference, the one that reads the delay timer.  Every other
tick does to the erased machine what it does to the machine itself:

    untimed (tick m)  =  untimed (tick (untimed m)).

Machines that hold the same keys have the same erasure if and only if they agree on the rest
(`untimed_eq_iff`).  `played` is the plain iteration of ticks on an erased machine, each with keys
of its own.
-/
import ChipEight.Proofs.Control

namespace ChipEight

/-- Whether a screen was shown makes no difference to a sprite. -/
theorem Framebuffer.draw_shown {width height : Nat} (b : Framebuffer width height) (x y : Int)
    (sprite : List UInt8) :
    (b.shown.draw x y sprite).1 = (b.draw x y sprite).1 ∧
      (b.shown.draw x y sprite).2.shown = (b.draw x y sprite).2.shown := by
  have hmisplaced : b.shown.misplaced? x y sprite = b.misplaced? x y sprite := rfl
  unfold draw
  rw [hmisplaced]
  split
  · exact ⟨rfl, rfl⟩
  · split <;> exact ⟨rfl, rfl⟩

namespace Machine

/-- The machine with its timers at rest and its screen shown. -/
def untimed (m : Machine) : Machine :=
  { m with timers := .stopped 0, screen := m.screen.shown }

variable {m m' : Machine} {i : Instruction}

@[simp] theorem untimed_keys (m : Machine) : m.untimed.keys = m.keys := rfl

@[simp] theorem untimed_fetch? (m : Machine) : m.untimed.fetch? = m.fetch? := rfl

/-! ### Machines that agree -/

/-- Two machines agree on everything but time and keys. -/
structure Agree (m m' : Machine) : Prop where
  memory : m.memory = m'.memory
  registers : m.registers = m'.registers
  index : m.index = m'.index
  pc : m.pc = m'.pc
  stack : m.stack = m'.stack
  pixels : m.screen.pixels = m'.screen.pixels
  hold : m.hold = m'.hold
  dialect : m.dialect = m'.dialect
  dice : m.dice = m'.dice

namespace Agree

theorem refl (m : Machine) : m.Agree m := ⟨rfl, rfl, rfl, rfl, rfl, rfl, rfl, rfl, rfl⟩

theorem trans {m'' : Machine} (h : m.Agree m') (h' : m'.Agree m'') : m.Agree m'' where
  memory := h.memory.trans h'.memory
  registers := h.registers.trans h'.registers
  index := h.index.trans h'.index
  pc := h.pc.trans h'.pc
  stack := h.stack.trans h'.stack
  pixels := h.pixels.trans h'.pixels
  hold := h.hold.trans h'.hold
  dialect := h.dialect.trans h'.dialect
  dice := h.dice.trans h'.dice

/-- Neither the keys nor the timers nor the mark of the screen count. -/
theorem of_rest (m : Machine) (keys : Keypad) (timers : Timers) (dirty : Bool) :
    m.Agree { m with keys, timers, screen := ⟨m.screen.pixels, dirty⟩ } :=
  ⟨rfl, rfl, rfl, rfl, rfl, rfl, rfl, rfl, rfl⟩

theorem fetch? (h : m.Agree m') : m.fetch? = m'.fetch? := by
  unfold Machine.fetch?
  simp only [h.pc, h.memory]

end Agree

/-- Machines with the same keys agree if nothing else is left after erasing time. -/
theorem untimed_eq_iff (hkeys : m.keys = m'.keys) : m.untimed = m'.untimed ↔ m.Agree m' := by
  constructor
  · intro h
    exact ⟨(congrArg memory h :), (congrArg registers h :), (congrArg index h :),
      (congrArg pc h :), (congrArg stack h :), (congrArg (fun m => m.screen.pixels) h :),
      (congrArg hold h :), (congrArg dialect h :), (congrArg dice h :)⟩
  · rintro ⟨hmemory, hregisters, hindex, hpc, hstack, hpixels, hhold, hdialect, hdice⟩
    obtain ⟨_, _, _, _, _, _, ⟨_, _⟩, _, _, _, _⟩ := m
    obtain ⟨_, _, _, _, _, _, ⟨_, _⟩, _, _, _, _⟩ := m'
    subst hmemory hregisters hindex hpc hstack hpixels hhold hdialect hdice hkeys
    rfl

/-! ### Ticks -/

theorem skipIf_untimed (m : Machine) (condition : Bool) :
    (m.untimed.skipIf condition).untimed = (m.skipIf condition).untimed := by
  cases condition <;> rfl

theorem draw_untimed (m : Machine) (x y height : Int) :
    (m.untimed.perform (.draw x y height)).1 = (m.perform (.draw x y height)).1 ∧
      (m.untimed.perform (.draw x y height)).2.untimed =
        (m.perform (.draw x y height)).2.untimed := by
  have hscreen : m.untimed.screen.draw (m.untimed.reg x) (m.untimed.reg y)
      (m.untimed.spriteAt height.toNat) =
        m.screen.shown.draw (m.reg x) (m.reg y) (m.spriteAt height.toNat) := rfl
  have hdraw := m.screen.draw_shown (m.reg x) (m.reg y) (m.spriteAt height.toNat)
  simp only [perform, hscreen]
  rcases e : m.screen.shown.draw (m.reg x) (m.reg y) (m.spriteAt height.toNat) with
    ⟨answer, screen⟩
  rcases e' : m.screen.draw (m.reg x) (m.reg y) (m.spriteAt height.toNat) with ⟨answer', screen'⟩
  rw [e, e'] at hdraw
  obtain ⟨rfl, hshown⟩ : answer = answer' ∧ screen.shown = screen'.shown := hdraw
  rcases answer with fault | met
  · exact ⟨rfl, congrArg (fun s => { m.untimed with screen := s }) hshown⟩
  · exact ⟨rfl, congrArg (fun s => { m.untimed with screen := s }.setReg flag
      (if met then 1 else 0)) hshown⟩

/-- **No instruction but one can tell the time.** -/
theorem perform_untimed (hi : ∀ x, i ≠ .readDelay x) (m : Machine) :
    (m.untimed.perform i).1 = (m.perform i).1 ∧
      (m.untimed.perform i).2.untimed = (m.perform i).2.untimed := by
  cases i with
  | readDelay x => exact absurd rfl (hi x)
  | draw x y height => exact draw_untimed m x y height
  -- the branches of these are taken on parts of the machine that are not erased
  | skipEqualByte | skipUnequalByte | skipEqual | skipUnequal | skipHeld | skipReleased =>
    exact ⟨rfl, skipIf_untimed ..⟩
  | ret =>
    have hpop : m.untimed.stack.pop = m.stack.pop := rfl
    simp only [perform, hpop]
    split <;> exact ⟨rfl, rfl⟩
  | call a =>
    have hpush : m.untimed.stack.push ((m.untimed.pc + 2) % 0x10000) =
        m.stack.push ((m.pc + 2) % 0x10000) := rfl
    simp only [perform, hpush]
    split <;> exact ⟨rfl, rfl⟩
  | addByte x k =>
    have hdialect : m.untimed.dialect = m.dialect := rfl
    refine ⟨rfl, ?_⟩
    simp only [perform, hdialect]
    split <;> rfl
  | awaitKey x =>
    have hchoose : m.untimed.keys.choose? m.untimed.dialect.keyChoice =
        m.keys.choose? m.dialect.keyChoice := rfl
    simp only [perform, hchoose]
    split <;> exact ⟨rfl, rfl⟩
  | _ => exact ⟨rfl, rfl⟩

theorem settle_untimed (h : m.untimed = m'.untimed) : m.settle.untimed = m'.settle.untimed := by
  have hhold : m.hold = m'.hold := (congrArg hold h :)
  unfold settle
  rw [hhold]
  split
  · exact congrArg (fun m => { m with hold := false }) h
  · exact congrArg advance h

/-- **No tick but one can tell the time.** -/
theorem tick_untimed (h : ∀ x, m.tick.1 ≠ .ok (some (.readDelay x))) :
    m.untimed.tick.1 = m.tick.1 ∧ m.untimed.tick.2.untimed = m.tick.2.untimed := by
  have ht := m.ticked
  rcases e : m.tick with ⟨answer, next⟩
  rw [e] at h ht
  cases ht with
  | outOfBounds hw =>
    rw [tick_of_outside (by rw [untimed_fetch?, hw])]
    exact ⟨rfl, rfl⟩
  | unknown hw hd =>
    rw [tick_of_unknown (by rw [untimed_fetch?, hw]) hd]
    exact ⟨rfl, rfl⟩
  | @performed w i n hw hd hp =>
    have hi : ∀ x, i ≠ .readDelay x := fun x hx => h x (by rw [hx])
    have hu := perform_untimed hi m
    rw [hp] at hu
    have hpu : m.untimed.perform i = (none, (m.untimed.perform i).2) := Prod.ext hu.1 rfl
    rw [tick_of_performed (by rw [untimed_fetch?, hw]) hd hpu]
    exact ⟨rfl, settle_untimed hu.2⟩
  | @refused w i f hw hd hp =>
    have hi : ∀ x, i ≠ .readDelay x := fun x hx => by
      rw [hx] at hp
      cases hp
    have hu := perform_untimed hi m
    rw [hp] at hu
    have htick : m.untimed.tick = (.error (.stack f), (m.untimed.perform i).2) := by
      rcases e : m.untimed.perform i with ⟨fault, n⟩
      rw [e] at hu
      obtain rfl : fault = some (.stack f) := hu.1
      simp only [tick, tickWith, untimed_fetch?, hw, hd,
        execute_of_fits (Instruction.decode_fits hd), e]
    rw [htick]
    exact ⟨rfl, hu.2⟩

/-! ### Playing without time -/

/-- An erased machine after `n` ticks; the `k`-th of them sees the keys `keys k`. -/
def played (keys : Nat → Keypad) (m : Machine) : Nat → Machine
  | 0 => m
  | n + 1 => { m.played keys n with keys := keys n }.tick.2.releaseKeys.untimed

/-- The machine at its tick number `n`, about to perform it. -/
def pressed (keys : Nat → Keypad) (m : Machine) (n : Nat) : Machine :=
  { m.played keys n with keys := keys n }

variable {keys : Nat → Keypad} {n c : Nat}

theorem played_succ (keys : Nat → Keypad) (m : Machine) (n : Nat) :
    m.played keys (n + 1) = (m.pressed keys n).tick.2.releaseKeys.untimed := rfl

/-- Between ticks no key is held. -/
theorem played_keys (h : m.keys = .released) (n : Nat) : (m.played keys n).keys = .released := by
  cases n with
  | zero => exact h
  | succ n => rfl

/-- From tick number `n` on, the next `c` ticks are not refused. -/
def Goes (keys : Nat → Keypad) (m : Machine) (n c : Nat) : Prop :=
  ∀ k, n ≤ k → k < n + c → ∃ i, (m.pressed keys k).tick.1 = .ok i

theorem goes_zero : m.Goes keys n 0 := fun k hle hlt => by omega

theorem Goes.snoc (h : m.Goes keys n c) {i : Option Instruction}
    (hi : (m.pressed keys (n + c)).tick.1 = .ok i) : m.Goes keys n (c + 1) := by
  intro k hle hlt
  by_cases hk : k = n + c
  · exact ⟨i, hk ▸ hi⟩
  · exact h k hle (by omega)

theorem Goes.append {d : Nat} (h : m.Goes keys n c) (h' : m.Goes keys (n + c) d) :
    m.Goes keys n (c + d) := by
  intro k hle hlt
  by_cases hk : k < n + c
  · exact h k hle hk
  · exact h' k (Nat.not_lt.mp hk) (by omega)

end Machine

end ChipEight
