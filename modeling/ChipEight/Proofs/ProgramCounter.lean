/-
Where a tick takes the program counter.

The word under the program counter `p` and the machine before the tick tell it:

    1nnn, 2nnn    nnn                       00EE    the address on top of the stack
    Bnnn          nnn + register 0          Fx0A    p        while no key is held
    3xkk, 4xkk, 5xyn, 9xyn, Ex9E, ExA1      p + 4   if the condition of the skip holds

and `p + 2` otherwise, also if the word is no instruction.  No sum wraps around, not even behind
the last word of the memory.

What an instruction does and what a word means are two steps.  `destination?` says where an
instruction takes the program counter, as the end of a tick leaves it (`perform_destination`), and
`nextPc?` says it of a word, digit by digit (`nextPc?_eq_destination`).

Main result: `tick_takes_nextPc`.  It holds of every machine whose flag `hold` is down, and the tick
leaves the flag down.
-/
import ChipEight.Proofs.Hold

namespace ChipEight

/-! ### Held keys -/

namespace Keypad

/-- The key with a number is held.  Only the numbers 0 to 15 are those of keys. -/
def Holds (p : Keypad) (n : Int) : Prop := ∃ k : Fin 16, (k.val : Int) = n ∧ p.held[k] = true

instance (p : Keypad) (n : Int) : Decidable (p.Holds n) :=
  inferInstanceAs (Decidable (∃ k : Fin 16, (k.val : Int) = n ∧ p.held[k] = true))

variable {p : Keypad} {n : Int}

theorem not_holds_of_lt (h : 15 < n) : ¬ p.Holds n := by
  rintro ⟨k, rfl, -⟩
  omega

theorem isHeld_iff_holds : p.isHeld n = true ↔ p.Holds n := by
  unfold isHeld
  split
  · rename_i h
    constructor
    · intro hk
      exact ⟨⟨n.toNat, by omega⟩, Int.toNat_of_nonneg h.1, hk⟩
    · rintro ⟨k, rfl, hk⟩
      exact hk
  · rename_i h
    refine iff_of_false Bool.false_ne_true ?_
    rintro ⟨k, rfl, -⟩
    omega

theorem isHeld_eq_decide (p : Keypad) (n : Int) : p.isHeld n = decide (p.Holds n) := by
  rw [Bool.eq_iff_iff, isHeld_iff_holds, decide_eq_true_iff]

/-- Nothing is held only if all keys are released. -/
theorem eq_released_iff : p = released ↔ ∀ k : Fin 16, ¬ p.Holds k.val := by
  constructor
  · rintro rfl k ⟨j, -, hj⟩
    simp [released] at hj
  · intro h
    obtain ⟨held⟩ := p
    refine congrArg Keypad.mk (Vector.ext fun k hk => ?_)
    have hk' : ¬ held[k] = true := fun e => h ⟨k, hk⟩ ⟨⟨k, hk⟩, rfl, e⟩
    rw [Vector.getElem_replicate]
    exact Bool.eq_false_iff.mpr hk'

/-- A wait takes a key unless all are released. -/
theorem choose?_eq_none_iff (c : KeyChoice) : p.choose? c = none ↔ p = released := by
  have hnil : p.choose? c = none ↔ p.heldKeys = [] := by
    cases c with
    | last => exact List.getLast?_eq_none_iff
    | lowest => exact List.head?_eq_none_iff
  rw [hnil, eq_released_iff, heldKeys, List.filter_eq_nil_iff]
  simp only [List.mem_range, isHeld_iff_holds, Fin.forall_iff]

end Keypad

namespace Machine

variable {m m' : Machine} {w : Int} {i : Instruction} {answer : Option Instruction}

/-! ### By words -/

/-- The word is a skip and its condition holds. -/
def Skips (m : Machine) (w : Int) : Prop :=
  Word.group w = 0x3 ∧ m.reg (Word.x w) = Word.byte w ∨
  Word.group w = 0x4 ∧ m.reg (Word.x w) ≠ Word.byte w ∨
  Word.group w = 0x5 ∧ m.reg (Word.x w) = m.reg (Word.y w) ∨
  Word.group w = 0x9 ∧ m.reg (Word.x w) ≠ m.reg (Word.y w) ∨
  Word.group w = 0xE ∧ Word.byte w = 0x9E ∧ m.keys.Holds (m.reg (Word.x w)) ∨
  Word.group w = 0xE ∧ Word.byte w = 0xA1 ∧ ¬ m.keys.Holds (m.reg (Word.x w))

instance (m : Machine) (w : Int) : Decidable (m.Skips w) :=
  inferInstanceAs (Decidable (_ ∧ _ ∨ _ ∧ _ ∨ _ ∧ _ ∨ _ ∧ _ ∨ _ ∧ _ ∧ _ ∨ _ ∧ _ ∧ _))

/-- The program counter after a tick that meets the word `w`.  A return has none if the stack is
empty. -/
def nextPc? (m : Machine) (w : Int) : Option Int :=
  if w = 0x00EE then m.stack.inUse.getLast?
  else if Word.group w = 0x1 ∨ Word.group w = 0x2 then some (Word.address w)
  else if Word.group w = 0xB then some (Word.address w + m.reg 0)
  else if Word.group w = 0xF ∧ Word.byte w = 0x0A ∧ m.keys = .released then some m.pc
  else if m.Skips w then some (m.pc + 4)
  else some (m.pc + 2)

/-! ### By instructions -/

/-- The next word, or the one behind it if a skip is taken. -/
def skipTo (m : Machine) (taken : Prop) [Decidable taken] : Int :=
  if taken then m.pc + 4 else m.pc + 2

/-- The program counter after a tick that executes an instruction, or that passes over a word. -/
def destination? (m : Machine) : Option Instruction → Option Int
  | some .ret => m.stack.inUse.getLast?
  | some (.jump a) | some (.call a) => some a
  | some (.jumpOffset a) => some (a + m.reg 0)
  | some (.awaitKey _) => some (if m.keys = .released then m.pc else m.pc + 2)
  | some (.skipEqualByte x k) => some (m.skipTo (m.reg x = k))
  | some (.skipUnequalByte x k) => some (m.skipTo (m.reg x ≠ k))
  | some (.skipEqual x y) => some (m.skipTo (m.reg x = m.reg y))
  | some (.skipUnequal x y) => some (m.skipTo (m.reg x ≠ m.reg y))
  | some (.skipHeld x) => some (m.skipTo (m.keys.Holds (m.reg x)))
  | some (.skipReleased x) => some (m.skipTo (¬ m.keys.Holds (m.reg x)))
  | _ => some (m.pc + 2)

/-! ### From words to instructions -/

theorem destination?_system (hw : 0 ≤ w ∧ w ≤ 0xFFFF) (hg : Word.group w = 0) :
    m.destination? (some (Instruction.decodeSystem w)) =
      if w = 0x00EE then m.stack.inUse.getLast? else some (m.pc + 2) := by
  have hret : w = 0x00EE ↔ Word.x w = 0 ∧ Word.byte w = 0xEE := by
    simp only [Word.group, Word.x, Word.byte] at *
    omega
  unfold Instruction.decodeSystem
  split
  · rename_i h
    rw [if_neg (by rw [hret, h.2]; simp)]
    rfl
  · simp only [← hret]
    split <;> rfl

theorem destination?_arithmetic (m : Machine) (w : Int) :
    m.destination? (Instruction.decodeArithmetic? w) = some (m.pc + 2) := by
  unfold Instruction.decodeArithmetic?
  dsimp only
  split <;> rfl

theorem destination?_key (m : Machine) (w : Int) :
    m.destination? (Instruction.decodeKey? w) = some (m.skipTo
      (Word.byte w = 0x9E ∧ m.keys.Holds (m.reg (Word.x w)) ∨
        Word.byte w = 0xA1 ∧ ¬ m.keys.Holds (m.reg (Word.x w)))) := by
  have hb : 0 ≤ Word.byte w := by
    unfold Word.byte
    omega
  unfold Instruction.decodeKey?
  split
  · have h9E : Word.byte w = 0x9E := by omega
    simp [destination?, skipTo, h9E]
  · have hA1 : Word.byte w = 0xA1 := by omega
    simp [destination?, skipTo, hA1]
  · simp only [imp_false] at *
    have h9E : Word.byte w ≠ 0x9E := by omega
    have hA1 : Word.byte w ≠ 0xA1 := by omega
    simp [destination?, skipTo, h9E, hA1]

theorem destination?_transfer (m : Machine) (w : Int) :
    m.destination? (Instruction.decodeTransfer? w) =
      some (if Word.byte w = 0x0A ∧ m.keys = .released then m.pc else m.pc + 2) := by
  by_cases h : Word.byte w = 0x0A
  · simp [Instruction.decodeTransfer?, destination?, h]
  · have hn : (Word.byte w).toNat ≠ 0x0A := by omega
    rw [if_neg fun hc => h hc.1]
    unfold Instruction.decodeTransfer?
    dsimp only
    split
    case h_2 e => exact absurd e hn
    all_goals rfl

/-- **The program counter by the word is that by the instruction of the word.** -/
theorem nextPc?_eq_destination (hw : 0 ≤ w ∧ w ≤ 0xFFFF) :
    m.nextPc? w = m.destination? (Instruction.decodeGroup? w) := by
  have hret : Word.group w ≠ 0 → w ≠ 0x00EE := by
    rintro h rfl
    exact h (by decide)
  have hdigit := Word.group_bounds w
  obtain ⟨g, hg⟩ := Int.eq_ofNat_of_zero_le hdigit.1
  unfold Instruction.decodeGroup?
  simp only [hg, Int.toNat_natCast]
  -- with the leading digit known, all tests but those of its group are settled
  split
  case h_1 => simp [nextPc?, Skips, hg, destination?_system hw hg]
  case h_9 => simp [nextPc?, Skips, hg, destination?_arithmetic, hret (by simp [hg])]
  case h_15 =>
    simp [nextPc?, Skips, hg, destination?_key, skipTo, hret (by simp [hg]), apply_ite some]
  case h_16 =>
    simp only [imp_false] at *
    have hF : g = 0xF := by omega
    simp [nextPc?, Skips, hg, hF, destination?_transfer, hret (by simp [hg, hF]), apply_ite some]
  all_goals simp [nextPc?, Skips, hg, destination?, skipTo, hret (by simp [hg]), apply_ite some]

/-! ### Single instructions -/

theorem perform_awaitKey_of_released (h : m.keys = .released) (x : Int) :
    m.perform (.awaitKey x) = (none, { m with hold := true }) := by
  simp only [perform, (Keypad.choose?_eq_none_iff _).mpr h]

theorem perform_awaitKey_of_held (h : m.keys ≠ .released) (x : Int) :
    ∃ key : Nat, m.perform (.awaitKey x) = (none, m.setReg x key) := by
  rw [Ne, ← Keypad.choose?_eq_none_iff m.dialect.keyChoice] at h
  obtain ⟨key, e⟩ := Option.ne_none_iff_exists'.mp h
  exact ⟨key, by simp only [perform, e]⟩

/-- The address behind a fetched word does not wrap around. -/
theorem advance_pc_of_fetched (hpc : 0 ≤ m.pc ∧ m.pc ≤ lastWord) : m.advance.pc = m.pc + 2 := by
  simp only [lastWord] at hpc
  simp only [advance]
  omega

/-- The end of the tick moves on by one word if nothing was done to the flow of control. -/
theorem settle_pc_of_same (hm : m.hold = false) (hpc : 0 ≤ m.pc ∧ m.pc ≤ lastWord)
    (hhold : m'.hold = m.hold) (hsame : m'.pc = m.pc) : m'.settle.pc = m.pc + 2 := by
  rw [← hsame] at hpc ⊢
  rw [settle, hhold, hm, if_neg Bool.false_ne_true, advance_pc_of_fetched hpc]

/-- A skip and the end of the tick move on by one word each. -/
theorem settle_pc_skipIf (hm : m.hold = false) (hpc : 0 ≤ m.pc ∧ m.pc ≤ lastWord) (c : Bool) :
    (m.skipIf c).settle.pc = m.skipTo (c = true) := by
  cases c with
  | false => exact settle_pc_of_same hm hpc rfl rfl
  | true =>
    simp only [lastWord] at hpc
    simp only [skipIf, settle, advance, skipTo, hm, if_true, Bool.false_eq_true, if_false]
    omega

/-- **Where an instruction takes the program counter**, as the end of the tick leaves it. -/
theorem perform_destination (hi : i.Fits) (hm : m.hold = false)
    (hpc : 0 ≤ m.pc ∧ m.pc ≤ lastWord) (hp : m.perform i = (none, m')) :
    m.destination? (some i) = some m'.settle.pc := by
  have hm' : m' = (m.perform i).2 := by rw [hp]
  have hsame (hhold : m'.hold = m.hold) (hpc' : m'.pc = m.pc) :
      some (m.pc + 2) = some m'.settle.pc :=
    congrArg some (settle_pc_of_same hm hpc hhold hpc').symm
  cases i with
  | jump a =>
    subst hm'
    rfl
  | jumpOffset a =>
    have ha : 0 ≤ a ∧ a < 4096 := hi (.address a) (by simp [Instruction.operands])
    have hr := m.reg_bounds 0
    have hmod : (a + m.reg 0) % 0x10000 = a + m.reg 0 := by omega
    subst hm'
    exact congrArg some hmod.symm
  | call a =>
    rcases e : m.stack.push ((m.pc + 2) % 0x10000) with ⟨f | u, s⟩
    · simp [perform, e] at hp
    · simp [hm', perform, e, destination?, jumpTo, settle]
  | ret =>
    rcases e : m.stack.pop with ⟨f | a, s⟩
    · simp [perform, e] at hp
    · simp [hm', perform, e, destination?, jumpTo, settle, CallStack.inUse_pop e]
  | skipEqualByte | skipUnequalByte | skipEqual | skipUnequal | skipHeld | skipReleased =>
    simp [hm', perform, destination?, settle_pc_skipIf hm hpc, Keypad.isHeld_eq_decide]
  | awaitKey x =>
    by_cases h : m.keys = .released
    · rw [perform_awaitKey_of_released h] at hm'
      subst hm'
      exact congrArg some (if_pos h)
    · obtain ⟨key, e⟩ := perform_awaitKey_of_held h x
      rw [e] at hm'
      subst hm'
      rw [destination?, if_neg h]
      exact hsame rfl rfl
  | addByte x k =>
    refine hsame ?_ ?_ <;>
    · simp only [hm', perform]
      split <;> rfl
  | draw x y height =>
    have hh : 0 ≤ height ∧ height < 16 := hi (.count height) (by simp [Instruction.operands])
    rw [m.perform_draw x y hh] at hm'
    subst hm'
    exact hsame rfl rfl
  | _ =>
    subst hm'
    exact hsame rfl rfl

/-! ### Ticks -/

/-- **The program counter after a tick.**  Let the flag be down before a tick that is not refused.
Then a whole word was under the program counter, and it tells where the program counter is after
the tick: at its address for a jump or a call, that plus register 0 for `Bnnn`, at the address on
top of the stack for a return, where it was for a wait while no key is held, four bytes on for a
skip whose condition holds, and two bytes on otherwise, also if the word is no instruction.  None of
the sums wraps around, and the flag is down again. -/
theorem tick_takes_nextPc (hm : m.hold = false) (ht : m.tick.1 = .ok answer) :
    ∃ w, m.fetch? = some w ∧ m.nextPc? w = some m.tick.2.pc ∧ m.tick.2.hold = false := by
  have hhold : m.tick.2.hold = false := by
    rw [Bool.eq_false_iff, Ne, tick_hold_iff, hm]
    exact fun h => Bool.false_ne_true h.2
  have htick := m.ticked
  rcases e : m.tick with ⟨r, n⟩
  rw [e] at htick ht hhold
  cases htick with
  | outOfBounds | refused => cases ht
  | @unknown w f hw hd =>
    have hword := word_of_fetch? hw
    have hnone : Instruction.decodeGroup? w = none := Option.eq_none_iff_forall_ne_some.mpr
      fun i hi => nomatch hd.symm.trans (Instruction.decode_eq_ok_iff.mpr ⟨hword, hi⟩)
    refine ⟨w, hw, ?_, hhold⟩
    rw [nextPc?_eq_destination hword, hnone, advance_pc_of_fetched (pc_of_fetch? hw)]
    rfl
  | @performed w i m' hw hd hp =>
    have hsome : Instruction.decodeGroup? w = some i := (Instruction.decode_eq_ok_iff.mp hd).2
    refine ⟨w, hw, ?_, hhold⟩
    rw [nextPc?_eq_destination (word_of_fetch? hw), hsome]
    exact perform_destination (Instruction.decode_fits hd) hm (pc_of_fetch? hw) hp

/-- A machine at the last word, a skip unless a key is held.  All keys are held, but register 3
names none of them. -/
def atLastWord : Machine :=
  { holding [(0xFFE, 0xE3), (0xFFF, 0xA1)] with
    pc := 0xFFE
    registers := .replicate 16 0x1F
    keys := ⟨.replicate 16 true⟩ }

theorem last_skip_leaves_memory :
    atLastWord.hold = false ∧ atLastWord.tick.1 = .ok (some (.skipReleased 3)) ∧
      atLastWord.fetch? = some 0xE3A1 ∧ atLastWord.Skips 0xE3A1 ∧ atLastWord.tick.2.pc = 0x1002 ∧
        atLastWord.tick.2.hold = false := by
  have hw : atLastWord.fetch? = some 0xE3A1 := by decide +kernel
  have ht : atLastWord.tick.1 = .ok (some (.skipReleased 3)) :=
    congrArg Prod.fst (tick_of_performed hw (by decide) rfl)
  have hnone : ¬ atLastWord.keys.Holds (atLastWord.reg 3) := Keypad.not_holds_of_lt (by decide)
  have hs : atLastWord.Skips 0xE3A1 := by simpa [Skips, Word.group, Word.x, Word.byte] using hnone
  obtain ⟨w, hw', hnext, hhold⟩ := tick_takes_nextPc (m := atLastWord) rfl ht
  obtain rfl : 0xE3A1 = w := Option.some.inj (hw.symm.trans hw')
  have hpc : atLastWord.nextPc? 0xE3A1 = some 0x1002 := by decide
  exact ⟨rfl, ht, hw, hs, Option.some.inj (hnext.symm.trans hpc), hhold⟩

end Machine

end ChipEight
