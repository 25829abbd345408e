/-
When a machine halts.

A tick is refused in two cases, and in no other:

    out of bounds    no whole word is at the program counter
    stack            the word is `2nnn` and the stack is full, or it is `00EE` and the stack
                     is empty

A refused tick changes nothing, so the same refusal is the answer to all later ticks
(`tick_of_halt`, `after_of_halt`).

Main result: `Reachable.halts_iff`, which puts these together for the states that a machine
can come to, where a program counter out of bounds is one behind the last word.
-/
import ChipEight.Proofs.Reachable

namespace ChipEight.Machine

variable {m : Machine} {w : Int} {i : Instruction}

/-- The word at the program counter is one that the stack refuses. -/
def StackRefuses (m : Machine) : Prop :=
  ∃ w, m.fetch? = some w ∧
    (Word.group w = 2 ∧ m.stack.depth = 16 ∨ w = 0x00EE ∧ m.stack.depth = 0)

theorem StackRefuses.pc_le (h : m.StackRefuses) : m.pc ≤ lastWord := by
  obtain ⟨w, hw, -⟩ := h
  exact (pc_of_fetch? hw).2

/-! ### The two refusals -/

theorem tick_of_refused {f : StackFault} (hw : m.fetch? = some w)
    (hd : Instruction.decode w = .ok i) (hp : m.perform i = (some (.stack f), m)) :
    m.tick = (.error (.stack f), m) := by
  simp only [tick, tickWith, hw, hd, execute_of_fits (Instruction.decode_fits hd), hp]

theorem perform_call_of_full (h : m.stack.depth = 16) (a : Int) :
    m.perform (.call a) = (some (.stack (.overflow ((m.pc + 2) % 0x10000))), m) := by
  simp only [perform, CallStack.push_of_full h]

theorem perform_ret_of_empty (h : m.stack.depth = 0) :
    m.perform .ret = (some (.stack .underflow), m) := by
  simp only [perform, CallStack.pop_of_empty h]

theorem tick_of_stackRefuses (h : m.StackRefuses) : ∃ f, m.tick = (.error (.stack f), m) := by
  obtain ⟨w, hw, ⟨hg, hfull⟩ | ⟨rfl, hempty⟩⟩ := h
  · have hd := Instruction.decode_eq_call_iff.mpr ⟨word_of_fetch? hw, hg, rfl⟩
    exact ⟨_, tick_of_refused hw hd (perform_call_of_full hfull _)⟩
  · have hd := Instruction.decode_eq_ret_iff.mpr rfl
    exact ⟨_, tick_of_refused hw hd (perform_ret_of_empty hempty)⟩

/-- The stack refuses an instruction only if the word is one that it refuses. -/
theorem stackRefuses_of_refused {f : StackFault} (hw : m.fetch? = some w)
    (hd : Instruction.decode w = .ok i) (hp : m.perform i = (some (.stack f), m)) :
    m.StackRefuses := by
  have he := perform_effect (Instruction.decode_fits hd) m
  rw [hp] at he
  -- of all effects only the faults of the stack come with a refusal
  cases he with
  | overflow a hfull =>
    obtain ⟨-, hg, -⟩ := Instruction.decode_eq_call_iff.mp hd
    exact ⟨w, hw, .inl ⟨hg, hfull⟩⟩
  | underflow hempty => exact ⟨w, hw, .inr ⟨Instruction.decode_eq_ret_iff.mp hd, hempty⟩⟩

/-! ### Halts -/

/-- **A machine halts in two cases**, and is left as it is. -/
theorem tick_of_halt {h : Halt} (ht : m.tick.1 = .error h) :
    m.tick = (.error h, m) ∧
      (h = .outOfBounds m.pc ∧ m.fetch? = none ∨ (∃ f, h = .stack f) ∧ m.StackRefuses) := by
  have hk := m.ticked
  rcases e : m.tick with ⟨r, n⟩
  rw [e] at hk ht
  cases hk with
  | outOfBounds hf =>
    obtain rfl := Except.error.inj ht
    exact ⟨rfl, .inl ⟨rfl, hf⟩⟩
  | refused hw hd hp =>
    obtain rfl := Except.error.inj ht
    exact ⟨rfl, .inr ⟨⟨_, rfl⟩, stackRefuses_of_refused hw hd hp⟩⟩
  | unknown _ _ => cases ht
  | performed _ _ _ => cases ht

/-- All later ticks of a halted machine are refused in the same way. -/
theorem after_of_halt {h : Halt} (ht : m.tick.1 = .error h) (n : Nat) :
    m.after (List.replicate n .tick) = m := by
  induction n with
  | zero => rfl
  | succ n ih =>
    have hm : m.operate .tick = m := congrArg Prod.snd (tick_of_halt ht).1
    rw [List.replicate_succ]
    show (m.operate .tick).after (List.replicate n .tick) = m
    rw [hm, ih]

/-- Every later tick of a halted machine gives the same answer. -/
theorem tick_after_halt {e : Halt} (ht : m.tick.1 = .error e) (n : Nat) :
    (m.after (List.replicate n .tick)).tick = (.error e, m) := by
  rw [after_of_halt ht]
  exact (tick_of_halt ht).1

/-- A machine in range is out of bounds behind the last word. -/
theorem InRange.outOfBounds_iff (h : m.InRange) :
    m.tick.1 = .error (.outOfBounds m.pc) ↔ lastWord < m.pc := by
  have hpc := h.pc
  constructor
  · intro ht
    obtain ⟨-, ⟨-, hf⟩ | ⟨⟨f, hf⟩, -⟩⟩ := tick_of_halt ht
    · rw [fetch?_eq_none_iff] at hf
      omega
    · cases hf
  · intro hlt
    have hf : m.fetch? = none := fetch?_eq_none_iff.mpr (by omega)
    rw [tick_of_outside hf]

theorem stackFault_iff :
    (∃ f, m.tick.1 = .error (.stack f)) ↔ m.pc ≤ lastWord ∧ m.StackRefuses := by
  constructor
  · rintro ⟨f, ht⟩
    obtain ⟨-, ⟨hf, -⟩ | ⟨-, hs⟩⟩ := tick_of_halt ht
    · cases hf
    · exact ⟨hs.pc_le, hs⟩
  · rintro ⟨-, hs⟩
    obtain ⟨f, hf⟩ := tick_of_stackRefuses hs
    exact ⟨f, by rw [hf]⟩

theorem halt_cases {e : Halt} (ht : m.tick.1 = .error e) :
    e = .outOfBounds m.pc ∨ ∃ f, e = .stack f := by
  obtain ⟨-, ⟨he, -⟩ | ⟨he, -⟩⟩ := tick_of_halt ht
  · exact .inl he
  · exact .inr he

/-! ### Sprites -/

/-- No decoded sprite is refused. -/
theorem execute_ne_sprite (hd : Instruction.decode w = .ok i) (f : DrawFault) :
    (m.execute i).1 ≠ some (.sprite f) := by
  intro hf
  have hi := Instruction.decode_fits hd
  rw [execute_of_fits hi] at hf
  obtain ⟨⟨g, hg⟩, -⟩ := perform_of_fault hi (Prod.ext hf rfl)
  cases hg

/-- A sprite that is too tall is refused before anything changes. -/
theorem execute_draw_of_tall {x y height : Int} (hx : 0 ≤ x ∧ x < 16) (hy : 0 ≤ y ∧ y < 16)
    (hh : 15 < height) :
    m.execute (.draw x y height) = (some (.sprite (.tooTall height.toNat)), m) := by
  have hr : (Instruction.draw x y height).registerFault? = none := by
    simp [Instruction.registerFault?, Instruction.registerUses, RegisterUse.fault?,
      RegisterUse.faultAt?_of_fits (x := x) hx, RegisterUse.faultAt?_of_fits (x := y) hy]
  have ht : tallestSprite < (m.spriteAt height.toNat).length := by
    rw [length_spriteAt, tallestSprite]
    omega
  have hd := m.screen.draw_of_tall (m.reg x) (m.reg y) ht
  rw [length_spriteAt] at hd
  simp only [execute, hr, perform, hd]

/-- **When a reachable machine halts.**  It is out of bounds behind the last word; it has a
fault of the stack on a call with sixteen addresses in use and on a return with none; it halts
for no other reason, and no decoded sprite is refused.  A halt leaves the whole machine as it
was, and so do all later ticks, which halt in the same way.  A sprite of more than fifteen rows,
which no word has, is refused without any change, too. -/
theorem Reachable.halts_iff (h : Reachable m) :
    (m.tick.1 = .error (.outOfBounds m.pc) ↔ lastWord < m.pc) ∧
    ((∃ f, m.tick.1 = .error (.stack f)) ↔ m.pc ≤ lastWord ∧ m.StackRefuses) ∧
    (∀ e, m.tick.1 = .error e → e = .outOfBounds m.pc ∨ ∃ f, e = .stack f) ∧
    (∀ w i, m.fetch? = some w → Instruction.decode w = .ok i →
      ∀ f, (m.execute i).1 ≠ some (.sprite f)) ∧
    (∀ e, m.tick.1 = .error e → m.tick.2 = m ∧
      ∀ n, (m.after (List.replicate n .tick)).tick = (.error e, m)) ∧
    ∀ x y height : Int, 0 ≤ x ∧ x < 16 → 0 ≤ y ∧ y < 16 → 15 < height →
      m.execute (.draw x y height) = (some (.sprite (.tooTall height.toNat)), m) := by
  refine ⟨h.inRange.outOfBounds_iff, stackFault_iff, fun _ ht => halt_cases ht, ?_, ?_, ?_⟩
  · intro w i _ hd f
    exact execute_ne_sprite hd f
  · intro e ht
    refine ⟨?_, tick_after_halt ht⟩
    rw [(tick_of_halt ht).1]
  · intro x y height hx hy hh
    exact execute_draw_of_tall hx hy hh

/-- A machine that returns without having been called. -/
def uncalled : Machine := (powerOn {} (.cycling #[]) (second.fdiv 60)).load #[0x00, 0xEE]

theorem reachable_uncalled : Reachable uncalled :=
  (reachable_powerOn (by decide)).operate (.load #[0x00, 0xEE])

theorem uncalled_halts :
    Reachable uncalled ∧ ∃ f, uncalled.tick.1 = .error (.stack f) := by
  have hf : uncalled.fetch? = some 0x00EE := fetch?_load (k := 0) rfl (by decide) (by decide)
  have hd : uncalled.stack.depth = 0 := by
    obtain ⟨memory, e⟩ := load_frame #[0x00, 0xEE] (powerOn {} (.cycling #[]) (second.fdiv 60))
    rw [uncalled, e]
    rfl
  have hs : uncalled.StackRefuses := ⟨0x00EE, hf, .inr ⟨rfl, hd⟩⟩
  exact ⟨reachable_uncalled, reachable_uncalled.halts_iff.2.1.mpr ⟨hs.pc_le, hs⟩⟩

end ChipEight.Machine
