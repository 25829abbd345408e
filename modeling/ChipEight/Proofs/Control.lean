/-
The flow of control: what becomes of the program counter and of the stack.

`Effect` says what performing one instruction may do to them, and `Ticked` what a tick may
come to.  Together they leave a tick four ways to go (`Move`):

    halt    the machine stays as it is
    stay    the stack stays as it is, the program counter ends up at `0x10FE` at most
    call    the address behind the instruction goes onto the stack
    ret     the program counter is taken from the stack

Later statements about ticks go by cases on `Ticked` or on `Move` and do not open the
instructions again.
-/
import ChipEight.Machine.Tick
import ChipEight.Proofs.CallStack
import ChipEight.Proofs.Decoding

namespace ChipEight

/-- A sprite that is not too tall can be drawn at every place that two registers name. -/
theorem Framebuffer.draw_of_bytes (b : Framebuffer 64 32) {x y : Int} {sprite : List UInt8}
    (hx : 0 ≤ x ∧ x ≤ 255) (hy : 0 ≤ y ∧ y ≤ 255) (hs : sprite.length ≤ tallestSprite) :
    b.draw x y sprite = (.ok (b.pixels.collides x y sprite), ⟨b.pixels.flip x y sprite, true⟩) := by
  have hm : b.misplaced? x y sprite = none := by
    simp [misplaced?, LongWord.fits_of_byte hx, LongWord.fits_of_byte hy]
  rw [draw, if_neg (Nat.not_lt.mpr hs), hm]

namespace Machine

theorem reg_bounds (m : Machine) (x : Int) : 0 ≤ m.reg x ∧ m.reg x ≤ 255 := by
  have h := (m.registers[slot x]).toNat_lt
  unfold reg
  omega

theorem reg_setReg_self (m : Machine) (x value : Int) : (m.setReg x value).reg x = value % 256 := by
  have hget : (m.setReg x value).registers[slot x] = UInt8.ofInt value :=
    Vector.getElem_set_self (slot x).isLt
  rw [reg, hget]
  simp only [UInt8.ofInt, UInt8.toNat_ofNat']
  omega

theorem reg_setReg_of_ne {x y : Int} (h : slot y ≠ slot x) (m : Machine) (value : Int) :
    (m.setReg x value).reg y = m.reg y := by
  have hne : (slot x : Nat) ≠ slot y := fun e => h (Fin.ext e.symm)
  have hget : (m.setReg x value).registers[slot y] = m.registers[slot y] :=
    Vector.getElem_set_ne (slot x).isLt (slot y).isLt hne
  rw [reg, hget]
  rfl

@[simp] theorem length_spriteAt (m : Machine) (height : Nat) :
    (m.spriteAt height).length = height := by
  simp [spriteAt]

/-! ### What an instruction may do -/

/-- What performing an instruction may do to the program counter, the stack and `hold`. -/
inductive Effect (m : Machine) : Instruction → Option Fault × Machine → Prop
  /-- nothing, or a skip -/
  | next {i m'} : m'.pc = m.pc ∨ m'.pc = m.advance.pc → m'.stack = m.stack →
      m'.hold = m.hold → Effect m i (none, m')
  | wait {i m'} : m'.pc = m.pc → m'.stack = m.stack → m'.hold = true → Effect m i (none, m')
  | jump {i m'} : 0 ≤ m'.pc ∧ m'.pc ≤ 0x10FE → m'.stack = m.stack → m'.hold = true →
      Effect m i (none, m')
  | call {a m'} : m.stack.push ((m.pc + 2) % 0x10000) = (.ok (), m'.stack) →
      0 ≤ a ∧ a < 4096 → m'.pc = a → m'.hold = true → Effect m (.call a) (none, m')
  | ret {m'} : m.stack.pop = (.ok m'.pc, m'.stack) → m'.hold = true → Effect m .ret (none, m')
  | overflow (a : Int) : m.stack.depth = 16 →
      Effect m (.call a) (some (.stack (.overflow ((m.pc + 2) % 0x10000))), m)
  | underflow : m.stack.depth = 0 → Effect m .ret (some (.stack .underflow), m)

variable {m m' : Machine} {i : Instruction}

theorem effect_skipIf (m : Machine) (i : Instruction) (condition : Bool) :
    Effect m i (none, m.skipIf condition) := by
  cases condition
  · exact .next (.inl rfl) rfl rfl
  · exact .next (.inr rfl) rfl rfl

theorem effect_ret (m : Machine) : Effect m .ret (m.perform .ret) := by
  unfold perform
  by_cases h : m.stack.depth = 0
  · rw [CallStack.pop_of_empty h]
    exact .underflow h
  · obtain ⟨a, s, e⟩ := CallStack.pop_of_pos (Nat.pos_of_ne_zero h)
    rw [e]
    exact .ret e rfl

theorem effect_call (m : Machine) {a : Int} (ha : 0 ≤ a ∧ a < 4096) :
    Effect m (.call a) (m.perform (.call a)) := by
  unfold perform
  by_cases h : m.stack.depth = 16
  · rw [CallStack.push_of_full h]
    exact .overflow a h
  · have hlt : m.stack.depth < 16 := Nat.lt_of_le_of_ne m.stack.depth_le h
    obtain ⟨s, e⟩ := CallStack.push_of_lt hlt ((m.pc + 2) % 0x10000)
    rw [e]
    exact .call e ha rfl rfl

theorem effect_jumpOffset (m : Machine) {a : Int} (ha : 0 ≤ a ∧ a < 4096) :
    Effect m (.jumpOffset a) (m.perform (.jumpOffset a)) := by
  have hr := m.reg_bounds 0
  have hpc : 0 ≤ (a + m.reg 0) % 0x10000 ∧ (a + m.reg 0) % 0x10000 ≤ 0x10FE := by omega
  exact .jump hpc rfl rfl

/-- A sprite whose height fits is drawn. -/
theorem perform_draw (m : Machine) (x y : Int) {height : Int} (hh : 0 ≤ height ∧ height < 16) :
    m.perform (.draw x y height) =
      have sprite := m.spriteAt height.toNat
      (none, { m with screen := ⟨m.screen.pixels.flip (m.reg x) (m.reg y) sprite, true⟩ }.setReg
        flag (if m.screen.pixels.collides (m.reg x) (m.reg y) sprite then 1 else 0)) := by
  have hs : (m.spriteAt height.toNat).length ≤ tallestSprite := by
    simp only [length_spriteAt, tallestSprite]
    omega
  simp only [perform, m.screen.draw_of_bytes (m.reg_bounds x) (m.reg_bounds y) hs]

theorem effect_draw (m : Machine) {x y height : Int} (hh : 0 ≤ height ∧ height < 16) :
    Effect m (.draw x y height) (m.perform (.draw x y height)) := by
  rw [m.perform_draw x y hh]
  exact .next (.inl rfl) rfl rfl

/-- **What an instruction may do to the flow of control.** -/
theorem perform_effect (hi : i.Fits) (m : Machine) : Effect m i (m.perform i) := by
  cases i with
  | ret => exact effect_ret m
  | call a => exact effect_call m (hi (.address a) (by simp [Instruction.operands]))
  | jump a =>
    have ha : 0 ≤ a ∧ a < 4096 := hi (.address a) (by simp [Instruction.operands])
    exact .jump (show 0 ≤ a ∧ a ≤ 0x10FE by omega) rfl rfl
  | jumpOffset a => exact effect_jumpOffset m (hi (.address a) (by simp [Instruction.operands]))
  | draw x y height => exact effect_draw m (hi (.count height) (by simp [Instruction.operands]))
  | skipEqualByte | skipUnequalByte | skipEqual | skipUnequal | skipHeld | skipReleased =>
    exact effect_skipIf ..
  | addByte x k =>
    simp only [perform]
    split <;> exact .next (.inl rfl) rfl rfl
  | awaitKey x =>
    simp only [perform]
    split
    · exact .wait rfl rfl rfl
    · exact .next (.inl rfl) rfl rfl
  | _ => exact .next (.inl rfl) rfl rfl

/-- An instruction whose operands fit is refused by the stack only, and then nothing is
changed. -/
theorem perform_of_fault {f : Fault} (hi : i.Fits) (h : m.perform i = (some f, m')) :
    (∃ g, f = .stack g) ∧ m' = m := by
  have e := perform_effect hi m
  rw [h] at e
  cases e with
  | overflow a _ => exact ⟨⟨_, rfl⟩, rfl⟩
  | underflow _ => exact ⟨⟨_, rfl⟩, rfl⟩

/-! ### What a tick may come to -/

/-- What a tick may come to. -/
inductive Ticked (m : Machine) : Except Halt (Option Instruction) × Machine → Prop
  | outOfBounds : m.fetch? = none → Ticked m (.error (.outOfBounds m.pc), m)
  | unknown {w e} : m.fetch? = some w → Instruction.decode w = .error e →
      Ticked m (.ok none, m.advance)
  | performed {w : Int} {i : Instruction} {m' : Machine} : m.fetch? = some w →
      Instruction.decode w = .ok i → m.perform i = (none, m') → Ticked m (.ok (some i), m'.settle)
  | refused {w i f} : m.fetch? = some w → Instruction.decode w = .ok i →
      m.perform i = (some (.stack f), m) → Ticked m (.error (.stack f), m)

/-- **What a tick may come to**: of a refused instruction nothing remains, and no decoded
instruction is refused but by the stack. -/
theorem ticked (m : Machine) : Ticked m m.tick := by
  unfold tick tickWith
  rcases hw : m.fetch? with - | w
  · exact .outOfBounds hw
  · dsimp only
    rcases hd : Instruction.decode w with e | i
    · exact .unknown hw hd
    · dsimp only
      have hi := Instruction.decode_fits hd
      rw [execute_of_fits hi]
      rcases hp : m.perform i with ⟨- | f, m'⟩
      · exact .performed hw hd hp
      · obtain ⟨⟨g, rfl⟩, rfl⟩ := perform_of_fault hi hp
        exact .refused hw hd hp

theorem tick_of_outside (h : m.fetch? = none) : m.tick = (.error (.outOfBounds m.pc), m) := by
  simp only [tick, tickWith, h]

theorem tick_of_unknown {w : Int} {e : UnknownWord} (hw : m.fetch? = some w)
    (hd : Instruction.decode w = .error e) : m.tick = (.ok none, m.advance) := by
  simp only [tick, tickWith, hw, hd]

theorem tick_of_performed {w : Int} (hw : m.fetch? = some w) (hd : Instruction.decode w = .ok i)
    (hp : m.perform i = (none, m')) : m.tick = (.ok (some i), m'.settle) := by
  simp only [tick, tickWith, hw, hd, execute_of_fits (Instruction.decode_fits hd), hp]

@[simp] theorem settle_stack (m : Machine) : m.settle.stack = m.stack := by
  unfold settle
  split <;> rfl

/-- After a jump or a wait the end of a tick leaves the program counter alone. -/
theorem settle_pc_of_hold (h : m.hold = true) : m.settle.pc = m.pc := by
  rw [settle, if_pos h]

theorem tick_jump {w a : Int} (hw : m.fetch? = some w)
    (hd : Instruction.decode w = .ok (.jump a)) : m.tick.2.pc = a := by
  have hp : m.perform (.jump a) = (none, m.jumpTo a) := rfl
  rw [tick_of_performed hw hd hp]
  exact settle_pc_of_hold rfl

/-! ### The four ways of a tick -/

/-- What a tick may do to the program counter and the stack. -/
inductive Move (m : Machine) : Except Halt (Option Instruction) × Machine → Prop
  | halt (h : Halt) : Move m (.error h, m)
  | stay {i : Option Instruction} {m' : Machine} : 0 ≤ m'.pc ∧ m'.pc ≤ 0x10FE → m'.stack = m.stack →
      Move m (.ok i, m')
  | call {w a : Int} {m' : Machine} : m.fetch? = some w →
      m.stack.push (m.pc + 2) = (.ok (), m'.stack) → 0 ≤ a ∧ a < 4096 → m'.pc = a →
      Move m (.ok (some (.call a)), m')
  | ret {m' : Machine} : m.fetch? = some 0x00EE → m.stack.pop = (.ok m'.pc, m'.stack) →
      Move m (.ok (some .ret), m')

/-- The end of a tick moves the program counter by one word at most. -/
theorem settle_pc (m : Machine) : m.settle.pc = m.pc ∨ m.settle.pc = (m.pc + 2) % 0x10000 := by
  unfold settle
  split
  · exact .inl rfl
  · exact .inr rfl

/-- **The four ways of a tick.** -/
theorem tick_move (m : Machine) : Move m m.tick := by
  have h := m.ticked
  rcases e : m.tick with ⟨r, n⟩
  rw [e] at h
  cases h with
  | outOfBounds _ => exact .halt _
  | refused _ _ _ => exact .halt _
  | unknown hw _ =>
    have hpc := pc_of_fetch? hw
    refine .stay ?_ rfl
    simp only [advance, lastWord] at *
    omega
  | @performed w i m' hw hd hp =>
    have hpc := pc_of_fetch? hw
    have he := perform_effect (Instruction.decode_fits hd) m
    have hs := m'.settle_pc
    rw [hp] at he
    simp only [lastWord] at *
    cases he with
    | next hp' hst _ =>
      -- a skip and the move at the end of the tick come to four bytes at most
      refine .stay ?_ (by simp [hst])
      simp only [advance] at *
      omega
    | wait hp' hst _ =>
      refine .stay ?_ (by simp [hst])
      omega
    | jump hp' hst hh =>
      refine .stay ?_ (by simp [hst])
      rw [settle_pc_of_hold hh]
      exact hp'
    | call hpush ha hp' hh =>
      -- the address behind a fetched word does not wrap around
      have hmod : (m.pc + 2) % 0x10000 = m.pc + 2 := by omega
      rw [hmod] at hpush
      exact .call hw (by simpa using hpush) ha (by rw [settle_pc_of_hold hh, hp'])
    | ret hpop hh =>
      rw [Instruction.decode_eq_ret_iff] at hd
      subst hd
      refine .ret hw ?_
      rw [settle_pc_of_hold hh, settle_stack]
      exact hpop

end Machine

end ChipEight
