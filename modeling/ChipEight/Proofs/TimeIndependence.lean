/-
Execution depends on time through the delay timer only.

Take two sessions whose machines agree on everything but time, with the same script of keys.  The
clocks, the rates, the timers, and the limits of the single runs may differ, as long as the limits
of both add up to the same number of ticks.  If neither session reads the delay timer, both come to

    the same number of ticks, the same fault or none, and machines that agree.

The link between the two is the plain iteration of ticks without time (`Machine.played`): tick
number `n` of a session, counted over all its runs, sees the keys of poll number `n` and does what
tick number `n` of the iteration does (`Step.follows`).  Main result: `Plays.independent_of_time`.
-/
import ChipEight.Proofs.History
import ChipEight.Proofs.Limit
import ChipEight.Proofs.Session
import ChipEight.Proofs.Untimed

namespace ChipEight

/-! ### Frontends that only press keys -/

/-- The keys that are held after a poll according to a script. -/
def keypadOf (script : List (Nat × List Int)) (n : Nat) : Keypad :=
  (Keypad.released.pressAll ((script.lookup n).getD [])).2

namespace Headless

variable {f : Headless}

@[simp] theorem setTone_script (on : Bool) (f : Headless) : (f.setTone on).script = f.script := by
  unfold setTone
  split <;> rfl

@[simp] theorem setTone_polls (on : Bool) (f : Headless) : (f.setTone on).polls = f.polls := by
  unfold setTone
  split <;> rfl

theorem poll_script (keys : Keypad) (f : Headless) : (f.poll keys).2.script = f.script := by
  by_cases h : f.Refuses
  · rw [(poll_of_refuses h keys).2]
  · rw [(poll_of_not_refuses h keys).2]
    rfl

/-- With a script of keys only, a poll that is answered is answered by going on. -/
theorem poll_of_keys {script : List (Nat × List Int)} (hf : f.script = { keys := script })
    {quit : Bool} {keys : Keypad} {g : Headless}
    (h : f.poll .released = ((.ok quit, keys), g)) :
    quit = false ∧ keys = keypadOf script f.polls ∧ g.polls = f.polls + 1 := by
  by_cases hr : f.Refuses
  · obtain ⟨⟨e, he⟩, -⟩ := poll_of_refuses hr .released
    rw [h] at he
    cases he
  · rw [(poll_of_not_refuses hr .released).2] at h
    cases h
    refine ⟨?_, ?_, rfl⟩
    · simp [quits, polled, hf]
    · simp [keypadOf, scripted, hf]

end Headless

namespace Run

variable {ω : Type} {host : Host ω Mishap} {frontend : ω → Headless}
variable {r next : Run Mishap} {w w' : ω}

/-- A step asks for keys in one phase only, and changes no script. -/
theorem Step.frontend_kept (hf : host.Windowless frontend) (h : Step host r w next w') :
    (frontend w').script = (frontend w).script ∧
      (r.phase ≠ .poll → (frontend w').polls = (frontend w).polls) := by
  have htold {tone on : Bool} {answer : Except Mishap Unit}
      (h : Told host tone on w answer w') :
      (frontend w').script = (frontend w).script ∧ (frontend w').polls = (frontend w).polls := by
    rcases h.frontend_eq hf with e | e <;> simp [e]
  cases h with
  | begin _ e | look _ _ e | pause _ e _ | noPause _ e _ =>
    rw [hf.read e]
    exact ⟨rfl, fun _ => rfl⟩
  | slept _ e | sleepFailed _ e =>
    rw [hf.sleep e]
    exact ⟨rfl, fun _ => rfl⟩
  | polled hp _ e | quit hp _ e | pollFailed hp _ e =>
    have hscript := (frontend w).poll_script r.machine.keys
    rw [hf.poll e] at hscript
    exact ⟨hscript, fun hne => absurd hp hne⟩
  | drawn _ _ _ e | drawFailed _ _ _ e =>
    rw [hf.render e]
    exact ⟨rfl, fun _ => rfl⟩
  | checked _ _ h | toneFailed _ _ h | silenced _ h | silenceFailed _ h =>
    exact ⟨(htold h).1, fun _ => (htold h).2⟩
  | exhausted | noTick | ticked | halted | noFrame | clean | ended => exact ⟨rfl, fun _ => rfl⟩

/-! ### A run follows the iteration without time -/

/-- What a run that began after `base` ticks may report, and the machine it leaves. -/
inductive Ending (keys : Nat → Keypad) (m : Machine) (base polls : Nat) (left : Machine) :
    Report → Prop
  | limit {c : Nat} : polls = base + c → left.untimed = m.played keys (base + c) →
      m.Goes keys base c → Ending keys m base polls left { reason := .cycleLimit, cycles := c }
  | halted {h : Halt} {c : Nat} : left.untimed = m.played keys (base + c + 1) →
      m.Goes keys base c → (m.pressed keys (base + c)).tick.1 = .error h →
      Ending keys m base polls left (.halted h c)

/-- A run that ends at its limit has made its ticks. -/
theorem Ending.of_limit {keys : Nat → Keypad} {m left : Machine} {base polls : Nat}
    {report : Report} (h : Ending keys m base polls left report)
    (hr : report.reason = .cycleLimit) :
    polls = base + report.cycles ∧ left.untimed = m.played keys (base + report.cycles) ∧
      m.Goes keys base report.cycles := by
  cases h with
  | limit hpolls hleft hgoes => exact ⟨hpolls, hleft, hgoes⟩
  | @halted h c => exact absurd hr (ofHalt_ne_cycleLimit h)

/-- Where a run that began after `base` ticks stands in the iteration of ticks from `m` on. -/
def Follows (frontend : ω → Headless) (script : List (Nat × List Int)) (m : Machine) (base : Nat)
    (r : Run Mishap) (w : ω) : Prop :=
  (frontend w).script = { keys := script } ∧
  match r.phase with
  | .start => (frontend w).polls = base ∧ r.machine.untimed = m.played (keypadOf script) base
  | .look | .poll | .sound | .draw | .measure | .sleep _ =>
    (frontend w).polls = base + r.cycles ∧
      r.machine.untimed = m.played (keypadOf script) (base + r.cycles) ∧
      m.Goes (keypadOf script) base r.cycles
  | .execute =>
    (frontend w).polls = base + r.cycles + 1 ∧
      r.machine.untimed = m.pressed (keypadOf script) (base + r.cycles) ∧
      m.Goes (keypadOf script) base r.cycles
  | .silence o | .over o => ∀ report, o = .ok report →
      Ending (keypadOf script) m base (frontend w).polls r.machine report

/-- The instruction that the next step executes, if it executes one. -/
def executed? {ε : Type} (r : Run ε) : Option Instruction :=
  match r.phase, r.machine.tick.1 with
  | .execute, .ok i => i
  | _, _ => none

variable {script : List (Nat × List Int)} {m : Machine} {base : Nat}

/-- A poll presses the keys of the next tick of the iteration. -/
theorem Follows.poll (hf : host.Windowless frontend) (hm : m.keys = .released)
    (hp : r.phase = .poll) (hr : r.Follows frontend script m base w) {quit : Bool}
    {keys : Keypad} (e : host.poll r.machine.keys w = ((.ok quit, keys), w')) :
    quit = false ∧ (frontend w').polls = base + r.cycles + 1 ∧
      { r.machine with keys }.untimed = m.pressed (keypadOf script) (base + r.cycles) ∧
      m.Goes (keypadOf script) base r.cycles := by
  obtain ⟨hscript, hr⟩ := hr
  rw [hp] at hr
  obtain ⟨hpolls, hplayed, hgoes⟩ := hr
  have hreleased : r.machine.keys = .released := by
    rw [← r.machine.untimed_keys, hplayed]
    exact Machine.played_keys hm _
  have hanswer := hf.poll e
  rw [hreleased] at hanswer
  obtain ⟨hquit, rfl, hcount⟩ := Headless.poll_of_keys hscript hanswer
  refine ⟨hquit, by rw [hcount, hpolls], ?_, hgoes⟩
  rw [Machine.pressed, ← hplayed, hpolls]
  rfl

/-- A tick does what the next tick of the iteration does. -/
theorem Follows.tick (hx : r.phase = .execute) (hr : r.Follows frontend script m base w)
    (hno : ∀ x, r.executed? ≠ some (.readDelay x)) :
    (m.pressed (keypadOf script) (base + r.cycles)).tick.1 = r.machine.tick.1 ∧
      r.machine.tick.2.releaseKeys.untimed =
        m.played (keypadOf script) (base + r.cycles + 1) := by
  obtain ⟨-, hr⟩ := hr
  rw [hx] at hr
  obtain ⟨-, hpressed, -⟩ := hr
  have hblind : ∀ x, r.machine.tick.1 ≠ .ok (some (.readDelay x)) := by
    intro x e
    apply hno x
    rw [executed?, hx, e]
  obtain ⟨hanswer, hnext⟩ := Machine.tick_untimed hblind
  rw [hpressed] at hanswer hnext
  refine ⟨hanswer, ?_⟩
  rw [Machine.played_succ]
  exact congrArg Machine.releaseKeys hnext.symm

/-- **A step follows the iteration without time**, unless it reads the delay timer. -/
theorem Step.follows (hf : host.Windowless frontend) (hm : m.keys = .released)
    (h : Step host r w next w') (hno : ∀ x, r.executed? ≠ some (.readDelay x))
    (hr : r.Follows frontend script m base w) : next.Follows frontend script m base w' := by
  obtain ⟨hkept, hcount⟩ := h.frontend_kept hf
  have hscript := hkept.trans hr.1
  cases h with
  -- nothing is said of a run that fails
  | pollFailed | toneFailed | drawFailed | sleepFailed | silenceFailed => exact ⟨hscript, nofun⟩
  | polled hp _ e =>
    obtain ⟨-, hnext⟩ := hr.poll hf hm hp e
    exact ⟨hscript, hnext⟩
  | quit hp _ e =>
    obtain ⟨hquit, -⟩ := hr.poll hf hm hp e
    cases hquit
  | ticked hp e =>
    obtain ⟨hanswer, hnext⟩ := hr.tick hp hno
    obtain ⟨-, hr⟩ := hr
    rw [hp] at hr hcount
    rw [e] at hanswer hnext
    exact ⟨hscript, (hcount nofun).trans hr.1, hnext, hr.2.2.snoc hanswer⟩
  | halted hp e =>
    obtain ⟨hanswer, hnext⟩ := hr.tick hp hno
    obtain ⟨-, hr⟩ := hr
    rw [hp] at hr
    rw [e] at hanswer hnext
    refine ⟨hscript, fun report ho => ?_⟩
    obtain rfl := Except.ok.inj ho
    exact .halted hnext hr.2.2 hanswer
  | begin hp _ =>
    obtain ⟨-, hr⟩ := hr
    rw [hp] at hr hcount
    exact ⟨hscript, (hcount nofun).trans hr.1, hr.2, Machine.goes_zero⟩
  | exhausted hp _ =>
    obtain ⟨-, hr⟩ := hr
    rw [hp] at hr
    refine ⟨hscript, fun report ho => ?_⟩
    obtain rfl := Except.ok.inj ho
    exact .limit hr.1 hr.2.1 hr.2.2
  | noTick hp _ =>
    obtain ⟨-, hr⟩ := hr
    rw [hp] at hr
    exact ⟨hscript, hr⟩
  | checked hp hm' _ =>
    subst hm'
    obtain ⟨-, hr⟩ := hr
    rw [hp] at hr hcount
    exact ⟨hscript, (hcount nofun).trans hr.1, hr.2⟩
  -- what these change is erased
  | look hp _ _ | noFrame hp _ | clean hp _ _ | drawn hp _ _ _ | pause hp _ _ | noPause hp _ _
  | slept hp _ =>
    obtain ⟨-, hr⟩ := hr
    rw [hp] at hr hcount
    exact ⟨hscript, (hcount nofun).trans hr.1, hr.2⟩
  | silenced hp _ =>
    obtain ⟨-, hr⟩ := hr
    rw [hp] at hr hcount
    refine ⟨hscript, fun report ho => ?_⟩
    have he := hr report ho
    rw [← hcount nofun] at he
    exact he
  | ended => exact hr

/-! ### Runs one after the other -/

/-- What is known of runs that were made one after the other: the ticks completed, how the last
run ended if not at its limit, and the instructions executed. -/
structure Tally where
  cycles : Nat
  stop? : Option (Reason × Option Halt)
  executed : List Instruction

/-- Runs with the given limits, one after the other, until a run ends otherwise than at its
limit. -/
inductive Plays {ω ε : Type} (host : Host ω ε) :
    List Int → Run ε → ω → Tally → Run ε → ω → Prop
  | done {r : Run ε} {w : ω} : Plays host [] r w ⟨0, none, []⟩ r w
  | again {limit : Int} {limits : List Int} {r r' last : Run ε} {w w' v : ω} {n c : Nat}
      {tally : Tally} : (r.again (some limit)).after host n w = (r', w') →
      r'.outcome? = some (.ok { reason := .cycleLimit, cycles := c }) →
      Plays host limits r' w' tally last v →
      Plays host (limit :: limits) r w
        ⟨c + tally.cycles, tally.stop?,
          (r.again (some limit)).noted executed? host w n ++ tally.executed⟩ last v
  | stopped {limit : Int} {limits : List Int} {r r' : Run ε} {w w' : ω} {n : Nat}
      {report : Report} :
      (r.again (some limit)).after host n w = (r', w') → r'.outcome? = some (.ok report) →
      report.reason ≠ .cycleLimit →
      Plays host (limit :: limits) r w
        ⟨report.cycles, some (report.reason, report.fault),
          (r.again (some limit)).noted executed? host w n⟩ r' w'

/-- The ticks that runs with the given limits make altogether. -/
def ticksOf : List Int → Nat
  | [] => 0
  | limit :: limits => limit.toNat + ticksOf limits

/-- How one run of several ends. -/
theorem Follows.ending (hf : host.Windowless frontend) (hm : m.keys = .released)
    {limit : Int} {n : Nat} {report : Report} {r' : Run Mishap}
    (hr : (r.again (some limit)).Follows frontend script m base w)
    (hno : ∀ x, .readDelay x ∉ (r.again (some limit)).noted executed? host w n)
    (hrun : (r.again (some limit)).after host n w = (r', w'))
    (hover : r'.outcome? = some (.ok report)) :
    (frontend w').script = { keys := script } ∧
      Ending (keypadOf script) m base (frontend w').polls r'.machine report ∧
      if report.reason = .cycleLimit then report.cycles = limit.toNat
      else report.cycles < limit.toNat := by
  have hover' := over_of_outcome hover
  obtain ⟨hscript, hends⟩ : r'.Follows frontend script m base w' := by
    have hafter := noted_of_step
      (P := fun l r' w' =>
        (∀ x, Instruction.readDelay x ∉ l) → r'.Follows frontend script m base w')
      (fun hs hl hno => hs.follows hf hm (fun x e => hno x (by simp [e]))
        (hl fun x hx => hno x (List.mem_append_left _ hx)))
      (fun _ => hr) n hno
    rw [hrun] at hafter
    exact hafter
  obtain ⟨-, hlimit⟩ : r'.Within limit := by
    have hbegun : (r.again (some limit)).Within limit := ⟨rfl, trivial⟩
    have hafter : ((r.again (some limit)).after host n w).1.Within limit :=
      after_of_step (P := fun r _ => r.Within limit) (fun hs h => hs.within h) hbegun n
    rw [hrun] at hafter
    exact hafter
  rw [hover'] at hends hlimit
  exact ⟨hscript, hends report rfl, hlimit report rfl⟩

/-- How several runs end: all ticks are made, or one that is refused. -/
structure Outlasts (keys : Nat → Keypad) (m : Machine) (base total : Nat) (tally : Tally)
    (left : Machine) : Prop where
  goes : m.Goes keys base tally.cycles
  ends : tally.stop? = none ∧ tally.cycles = total ∧
      left.untimed = m.played keys (base + total) ∨
    ∃ h, tally.stop? = some (.ofHalt h, some h) ∧ tally.cycles < total ∧
      left.untimed = m.played keys (base + tally.cycles + 1) ∧
      (m.pressed keys (base + tally.cycles)).tick.1 = .error h

/-- **Runs made one after the other follow the iteration without time.** -/
theorem Plays.outlasts (hf : host.Windowless frontend) (hm : m.keys = .released)
    {limits : List Int} {tally : Tally} {last : Run Mishap} {v : ω}
    (h : Plays host limits r w tally last v) (hno : ∀ x, .readDelay x ∉ tally.executed)
    (hscript : (frontend w).script = { keys := script }) (hpolls : (frontend w).polls = base)
    (hplayed : r.machine.untimed = m.played (keypadOf script) base) :
    Outlasts (keypadOf script) m base (ticksOf limits) tally last.machine := by
  induction h generalizing base with
  | done => exact ⟨Machine.goes_zero, .inl ⟨rfl, rfl, hplayed⟩⟩
  | @again limit limits r r' last w w' v n c tally hrun hover _ ih =>
    have hbegun : (r.again (some limit)).Follows frontend script m base w :=
      ⟨hscript, hpolls, hplayed⟩
    obtain ⟨hscript', hends, hc⟩ := hbegun.ending hf hm
      (fun x hx => hno x (List.mem_append_left _ hx)) hrun hover
    obtain rfl : c = limit.toNat := hc
    obtain ⟨hpolls', hplayed', hgoes⟩ := hends.of_limit rfl
    obtain ⟨hgoes', hends'⟩ := ih (fun x hx => hno x (List.mem_append_right _ hx)) hscript'
      hpolls' hplayed'
    have hticks : ticksOf (limit :: limits) = limit.toNat + ticksOf limits := rfl
    refine ⟨hgoes.append hgoes', ?_⟩
    rw [hticks]
    simp only [← Nat.add_assoc]
    refine hends'.imp ?_ ?_
    · rintro ⟨hstop, htotal, hleft⟩
      exact ⟨hstop, by rw [htotal], hleft⟩
    · rintro ⟨h, hstop, hlt, hleft, herror⟩
      exact ⟨h, hstop, Nat.add_lt_add_left hlt _, hleft, herror⟩
  | @stopped limit limits r r' w w' n report hrun hover hreason =>
    have hbegun : (r.again (some limit)).Follows frontend script m base w :=
      ⟨hscript, hpolls, hplayed⟩
    obtain ⟨-, hends, hc⟩ := hbegun.ending hf hm hno hrun hover
    rw [if_neg hreason] at hc
    cases hends with
    | limit => exact absurd rfl hreason
    | @halted h c hleft hgoes herror =>
      have hlt : c < ticksOf (limit :: limits) := Nat.lt_of_lt_of_le hc (Nat.le_add_right ..)
      exact ⟨hgoes, .inr ⟨h, rfl, hlt, hleft, herror⟩⟩

/-- What outlasts the same number of ticks ends alike. -/
theorem Outlasts.agree {keys : Nat → Keypad} {base total : Nat} {tally₁ tally₂ : Tally}
    {m₁ m₂ : Machine} (h₁ : Outlasts keys m base total tally₁ m₁)
    (h₂ : Outlasts keys m base total tally₂ m₂) :
    tally₁.cycles = tally₂.cycles ∧ tally₁.stop? = tally₂.stop? ∧ m₁.untimed = m₂.untimed := by
  -- where one of the two is refused a tick, the other cannot go on
  have hle {t t' : Tally} {h : Halt} (hgoes : m.Goes keys base t.cycles)
      (herror : (m.pressed keys (base + t'.cycles)).tick.1 = .error h) : t.cycles ≤ t'.cycles := by
    refine Nat.not_lt.mp fun hlt => ?_
    obtain ⟨i, hi⟩ := hgoes (base + t'.cycles) (Nat.le_add_right ..) (by omega)
    rw [hi] at herror
    cases herror
  obtain ⟨hgoes₁, ⟨hstop₁, hn₁, hleft₁⟩ | ⟨e₁, hstop₁, hlt₁, hleft₁, herror₁⟩⟩ := h₁ <;>
    obtain ⟨hgoes₂, ⟨hstop₂, hn₂, hleft₂⟩ | ⟨e₂, hstop₂, hlt₂, hleft₂, herror₂⟩⟩ := h₂
  · exact ⟨hn₁.trans hn₂.symm, hstop₁.trans hstop₂.symm, hleft₁.trans hleft₂.symm⟩
  · have := hle hgoes₁ herror₂
    omega
  · have := hle hgoes₂ herror₁
    omega
  · have hn : tally₁.cycles = tally₂.cycles :=
      Nat.le_antisymm (hle hgoes₁ herror₂) (hle hgoes₂ herror₁)
    rw [hn] at hleft₁ herror₁
    obtain rfl : e₁ = e₂ := Except.error.inj (herror₁.symm.trans herror₂)
    exact ⟨hn, hstop₁.trans hstop₂.symm, hleft₁.trans hleft₂.symm⟩

/-- **Execution depends on time through the delay timer only.**  Two sessions start with machines
that agree on everything but time and with no key held, and with fresh frontends that press the
keys of the same script.  The outside, its clock in particular, the rates, the timers and whether
the screen was shown may differ, and so may the limits of the single runs, if they add up to the
same number of ticks.

If neither session executes an instruction that reads the delay timer, and the runs of both come
to their ends, then both complete the same number of ticks and leave machines that agree; and
either these are all the ticks, or both are stopped by the same fault. -/
theorem Plays.independent_of_time {ω₁ ω₂ : Type} {host₁ : Host ω₁ Mishap} {host₂ : Host ω₂ Mishap}
    {frontend₁ : ω₁ → Headless} {frontend₂ : ω₂ → Headless} {r₁ r₂ last₁ last₂ : Run Mishap}
    {w₁ v₁ : ω₁} {w₂ v₂ : ω₂} {limits₁ limits₂ : List Int} {tally₁ tally₂ : Tally}
    (hf₁ : host₁.Windowless frontend₁) (hf₂ : host₂.Windowless frontend₂)
    (hagree : r₁.machine.Agree r₂.machine)
    (hkeys₁ : r₁.machine.keys = .released) (hkeys₂ : r₂.machine.keys = .released)
    (hfresh₁ : frontend₁ w₁ = { script := { keys := script } })
    (hfresh₂ : frontend₂ w₂ = { script := { keys := script } })
    (hticks : ticksOf limits₁ = ticksOf limits₂)
    (h₁ : Plays host₁ limits₁ r₁ w₁ tally₁ last₁ v₁)
    (h₂ : Plays host₂ limits₂ r₂ w₂ tally₂ last₂ v₂)
    (hno₁ : ∀ x, .readDelay x ∉ tally₁.executed) (hno₂ : ∀ x, .readDelay x ∉ tally₂.executed) :
    tally₁.cycles = tally₂.cycles ∧ tally₁.stop? = tally₂.stop? ∧
      last₁.machine.Agree last₂.machine ∧
      (tally₁.stop? = none ∧ tally₁.cycles = ticksOf limits₁ ∨
        ∃ h, tally₁.stop? = some (.ofHalt h, some h) ∧ tally₁.cycles < ticksOf limits₁) := by
  have hstart : r₁.machine.untimed = r₂.machine.untimed :=
    (Machine.untimed_eq_iff (hkeys₁.trans hkeys₂.symm)).mpr hagree
  have hscript₁ : (frontend₁ w₁).script = { keys := script } := by rw [hfresh₁]
  have hscript₂ : (frontend₂ w₂).script = { keys := script } := by rw [hfresh₂]
  have hpolls₁ : (frontend₁ w₁).polls = 0 := by rw [hfresh₁]
  have hpolls₂ : (frontend₂ w₂).polls = 0 := by rw [hfresh₂]
  have hout₁ := h₁.outlasts (m := r₁.machine.untimed) hf₁ hkeys₁ hno₁ hscript₁ hpolls₁ rfl
  have hout₂ := h₂.outlasts (m := r₁.machine.untimed) hf₂ hkeys₁ hno₂ hscript₂ hpolls₂
    hstart.symm
  rw [← hticks] at hout₂
  obtain ⟨hcycles, hstop, hleft⟩ := hout₁.agree hout₂
  have hkeys : last₁.machine.keys = last₂.machine.keys := (congrArg Machine.keys hleft :)
  refine ⟨hcycles, hstop, (Machine.untimed_eq_iff hkeys).mp hleft, ?_⟩
  refine hout₁.ends.imp ?_ ?_
  · rintro ⟨hnone, htotal, -⟩
    exact ⟨hnone, htotal⟩
  · rintro ⟨h, hsome, hlt, -⟩
    exact ⟨h, hsome, hlt⟩

/-- A machine whose program waits for a key and is stopped by a return without a call. -/
def stumbling : Machine :=
  Machine.holding [(0x200, 0xF0), (0x201, 0x0A), (0x202, 0x00), (0x203, 0xEE)]

/-- A bench with a key held at the second poll. -/
def prompt : Bench := { frontend := { script := { keys := [(1, [7])] } } }

/-- The same machine with other timers, about to run at another rate. -/
def late : Run Mishap :=
  fresh { clockRate := 50, frameRate := 50 }
    { stumbling with
      timers := ⟨second.fdiv 7, .load 9, .load 200⟩
      screen := stumbling.screen.shown } none

/-- The same frontend with a clock that takes its time and stalls. -/
def slow : Bench := { prompt with clock := { readCost := 4000, oversleep := [(2, 800000000)] } }

/-- A first run of one tick. -/
def early : Run Mishap × Bench :=
  ((fresh {} stumbling none).again (some 1)).after Bench.host 10 prompt

/-- A second run of five ticks, which is stopped. -/
def resumed : Run Mishap × Bench := (early.1.again (some 5)).after Bench.host 12 early.2

/-- A single run of six ticks, which is stopped. -/
def single : Run Mishap × Bench := (late.again (some 6)).after Bench.host 19 slow

theorem stumbling_agrees :
    resumed.1.outcome? = some (.ok (.halted (.stack .underflow) 1)) ∧
      single.1.outcome? = some (.ok (.halted (.stack .underflow) 2)) ∧
      resumed.1.machine.Agree single.1.machine := by
  have hruns : early.1.outcome? = some (.ok { reason := .cycleLimit, cycles := 1 }) ∧
      resumed.1.outcome? = some (.ok (.halted (.stack .underflow) 1)) ∧
      single.1.outcome? = some (.ok (.halted (.stack .underflow) 2)) := by decide +kernel
  have hnoted : ((fresh {} stumbling none : Run Mishap).again (some 1)).noted executed? Bench.host
        prompt 10 = [.awaitKey 0] ∧
      (early.1.again (some 5)).noted executed? Bench.host early.2 12 = [.awaitKey 0] ∧
      (late.again (some 6)).noted executed? Bench.host slow 19 =
        [.awaitKey 0, .awaitKey 0] := by decide +kernel
  obtain ⟨hearly, hresumed, hsingle⟩ := hruns
  obtain ⟨hnoted₁, hnoted₂, hnoted₃⟩ := hnoted
  refine ⟨hresumed, hsingle, ?_⟩
  have hpair (p : Run Mishap × Bench) : p = (p.1, p.2) := rfl
  have hplays₁ : Plays Bench.host [1, 5] (fresh {} stumbling none) prompt _ resumed.1 resumed.2 :=
    .again (hpair early) hearly (.stopped (hpair resumed) hresumed nofun)
  have hplays₂ : Plays Bench.host [6] late slow _ single.1 single.2 :=
    .stopped (hpair single) hsingle nofun
  have hagree : (fresh {} stumbling none : Run Mishap).machine.Agree late.machine :=
    ⟨rfl, rfl, rfl, rfl, rfl, rfl, rfl, rfl, rfl⟩
  have hfresh₁ : prompt.frontend = { script := { keys := [(1, [7])] } } := rfl
  have hfresh₂ : slow.frontend = { script := { keys := [(1, [7])] } } := rfl
  have hticks : ticksOf [1, 5] = ticksOf [6] := rfl
  have hblind₁ : ∀ x, .readDelay x ∉ [Instruction.awaitKey 0] ++ [.awaitKey 0] := by simp
  have hblind₂ : ∀ x, .readDelay x ∉ [Instruction.awaitKey 0, .awaitKey 0] := by simp
  rw [hnoted₁, hnoted₂] at hplays₁
  rw [hnoted₃] at hplays₂
  exact (hplays₁.independent_of_time Bench.windowless Bench.windowless hagree rfl rfl hfresh₁
    hfresh₂ hticks hplays₂ hblind₁ hblind₂).2.2.1

end Run

end ChipEight
