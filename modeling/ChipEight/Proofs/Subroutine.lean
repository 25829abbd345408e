/-
Calls come back.

A call at address `p` puts `p + 2` onto the stack.  As long as the subroutine runs, the
addresses that were in use before and this one stay at the bottom of the stack,

    inUse = before ++ [p + 2] ++ ...,

whatever else the machine does: a tick changes the list of addresses at its end only, so what
is below the end stays (`operate_inside`).  The one way out is a return that takes `p + 2`.

Main result: `call_returns`.  The first tick after which the depth is that before the call
executes `00EE`, goes on behind the call, and leaves the addresses that were in use before.  No
assumption is made on the memory, so the program may change itself on the way.
-/
import ChipEight.Proofs.Reachable

namespace ChipEight.Machine

variable {m n : Machine} {base : List Int} {a : Int}

/-- The machine is inside a call: above the addresses `base` its return address `a` is in use. -/
def Inside (base : List Int) (a : Int) (m : Machine) : Prop := base ++ [a] <+: m.stack.inUse

/-- A machine comes back from a call: it executes a return that takes the address `a` and leaves
`base`. -/
structure Returns (base : List Int) (a : Int) (m : Machine) : Prop where
  word : m.fetch? = some 0x00EE
  answer : m.tick.1 = .ok (some .ret)
  pc : m.tick.2.pc = a
  inUse : m.tick.2.stack.inUse = base

/-! ### Inside a call -/

/-- Taking the last address either leaves the call open or takes its return address. -/
theorem inside_or_eq_of_append {b : Int} {rest : List Int} (h : base ++ [a] <+: rest ++ [b]) :
    base ++ [a] <+: rest ∨ base = rest ∧ a = b := by
  rcases List.prefix_concat_iff.mp h with e | hp
  · exact .inr ⟨List.append_inj_left' e rfl, by simpa using List.append_inj_right' e rfl⟩
  · exact .inl hp

/-- **A tick inside a call stays inside it or comes back from it.** -/
theorem tick_inside (h : m.Inside base a) : m.tick.2.Inside base a ∨ m.Returns base a := by
  have hm := m.tick_move
  rcases e : m.tick with ⟨r, n⟩
  rw [e] at hm
  cases hm with
  | halt _ => exact .inl h
  | stay _ hs =>
    refine .inl ?_
    show base ++ [a] <+: n.stack.inUse
    rw [hs]
    exact h
  | call _ hpush _ _ =>
    refine .inl ?_
    show base ++ [a] <+: n.stack.inUse
    rw [CallStack.inUse_push hpush]
    exact h.trans (List.prefix_append _ _)
  | ret hw hpop =>
    have hs := CallStack.inUse_pop hpop
    unfold Inside at h
    rw [hs] at h
    rcases inside_or_eq_of_append h with hin | ⟨hb, ha⟩
    · exact .inl hin
    · exact .inr ⟨hw, by rw [e], by rw [e, ha], by rw [e, hb]⟩

theorem operate_inside (h : m.Inside base a) {o : Operation} (ho : o ≠ .reset) :
    (m.operate o).Inside base a ∨ o = .tick ∧ m.Returns base a := by
  cases o with
  | tick => exact (tick_inside h).imp_right fun hr => ⟨rfl, hr⟩
  | reset => exact absurd rfl ho
  | load program =>
    obtain ⟨memory, e⟩ := load_frame program m
    rw [operate, e]
    exact .inl h
  | press key => exact .inl h
  | releaseKeys => exact .inl h
  | checkTimers now => exact .inl h

/-! ### Until the depth is that before the call -/

/-- As long as no tick brings the depth back, the machine stays inside the call. -/
theorem after_inside (h : m.Inside base a) {ops : List Operation} (hops : .reset ∉ ops)
    (hfirst : ∀ l, l ++ [.tick] <+: ops → (m.after (l ++ [.tick])).stack.depth ≠ base.length) :
    (m.after ops).Inside base a := by
  induction ops generalizing m with
  | nil => exact h
  | cons o ops ih =>
    have ho : o ≠ .reset := (List.ne_of_not_mem_cons hops).symm
    rcases operate_inside h ho with hin | ⟨rfl, hr⟩
    · -- the operations go on from a machine that is still inside
      refine ih hin (List.not_mem_of_not_mem_cons hops) fun l hl => ?_
      exact hfirst (o :: l) (List.prefix_cons_inj o |>.mpr hl)
    · -- a tick that comes back brings the depth back, which the first of them does not
      refine absurd ?_ (hfirst [] (by simp))
      show m.tick.2.stack.depth = base.length
      rw [← CallStack.length_inUse, hr.inUse]

/-- A call puts the address behind it onto the stack. -/
theorem inside_of_call {w : Int} (hw : m.fetch? = some w) (hg : Word.group w = 2)
    (hd : m.stack.depth < 16) : m.tick.2.Inside m.stack.inUse (m.pc + 2) := by
  have hpc := pc_of_fetch? hw
  have hmod : (m.pc + 2) % 0x10000 = m.pc + 2 := by
    simp only [lastWord] at hpc
    omega
  have hc := Instruction.decode_eq_call_iff.mpr ⟨word_of_fetch? hw, hg, rfl⟩
  obtain ⟨s, hpush⟩ := CallStack.push_of_lt hd (m.pc + 2)
  have hp : m.perform (.call (Word.address w)) =
      (none, { m with stack := s }.jumpTo (Word.address w)) := by
    simp only [perform, hmod, hpush]
  have hs : (jumpTo { m with stack := s } (Word.address w)).settle.stack.inUse =
      m.stack.inUse ++ [m.pc + 2] := by
    rw [settle_stack, jumpTo, CallStack.inUse_push hpush]
  rw [tick_of_performed hw hc hp]
  exact ⟨[], by rw [hs, List.append_nil]⟩

/-- **A call comes back to the address behind it.**  After a call with `d` addresses in use,
let any operations but a reset follow, and let no tick among them bring the depth back to `d`.
If the next tick does, then it executes `00EE`, goes on behind the call, and leaves the `d`
addresses that were in use before the call. -/
theorem call_returns {w : Int} (hw : m.fetch? = some w) (hg : Word.group w = 2)
    (hd : m.stack.depth < 16) {ops : List Operation} (hops : .reset ∉ ops)
    (hfirst : ∀ l, l ++ [.tick] <+: ops →
      (m.tick.2.after (l ++ [.tick])).stack.depth ≠ m.stack.depth)
    (hback : (m.tick.2.after ops).tick.2.stack.depth = m.stack.depth) :
    (m.tick.2.after ops).Returns m.stack.inUse (m.pc + 2) := by
  rw [← CallStack.length_inUse m.stack] at hfirst
  rcases tick_inside (after_inside (inside_of_call hw hg hd) hops hfirst) with hin | hr
  · -- still inside, so there is at least one address more than before the call
    have hlen := List.IsPrefix.length_le hin
    rw [CallStack.length_inUse, hback, List.length_append, CallStack.length_inUse] at hlen
    exact absurd hlen (Nat.not_succ_le_self _)
  · exact hr

/-- A machine with a call to a subroutine that makes a call itself. -/
def nested : Machine :=
  holding [(0x200, 0x22), (0x201, 0x04), (0x204, 0x22), (0x205, 0x08), (0x207, 0xEE), (0x209, 0xEE)]

/-- What happens inside the outer call: the inner one, with a key pressed and the timers checked. -/
def detour : List Operation := [.tick, .press 5, .tick, .checkTimers 7]

theorem nested_call_returns :
    nested.fetch? = some 0x2204 ∧
      (nested.tick.2.after detour).Returns nested.stack.inUse 0x202 := by
  have hrun : nested.fetch? = some 0x2204 ∧
      (∀ k : Fin 5, (nested.tick.2.after (detour.take k)).stack.depth ≠ nested.stack.depth) ∧
      (nested.tick.2.after detour).tick.2.stack.depth = nested.stack.depth := by decide +kernel
  obtain ⟨hw, hopen, hback⟩ := hrun
  refine ⟨hw, call_returns hw (by decide) (by decide) (by decide) ?_ hback⟩
  intro l hl
  have hk : (l ++ [Operation.tick]).length < 5 := Nat.lt_succ_of_le hl.length_le
  rw [List.prefix_iff_eq_take.mp hl]
  exact hopen ⟨_, hk⟩

end ChipEight.Machine
