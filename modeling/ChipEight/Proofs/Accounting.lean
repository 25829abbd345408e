/-
What a run reports, and what it did.

A run makes one poll before each tick that it tries.  Where it ends decides what it has made besides
the ticks that it completed:

    cycle limit    before the next poll        cycles polls,      cycles ticks
    quit           behind a poll               cycles + 1 polls,  cycles ticks
    halt           behind a tick refused       cycles + 1 polls,  cycles + 1 ticks

The machines that ticked lead from the machine at the start to the one that is left (`Through`); a
refused tick does not take part.  So the machine that is left is refused again: a further run
comes to no tick, and ends with its first poll (`Doomed`).

Main result: `accounted`.
-/
import ChipEight.Host.Bench
import ChipEight.Proofs.Halting
import ChipEight.Proofs.History
import ChipEight.Proofs.Limit
import ChipEight.Proofs.Untimed

namespace ChipEight

/-! ### Machines that agree -/

namespace Machine

variable {m m' m'' : Machine} {h : Halt}

/-- **Machines that agree halt alike**: no refusal depends on time or on keys. -/
theorem Agree.tick_of_halt (ha : m.Agree m') (ht : m.tick.1 = .error h) :
    m'.tick = (.error h, m') := by
  have hk := m.ticked
  rcases e : m.tick with ⟨answer, next⟩
  rw [e] at hk ht
  cases hk with
  | outOfBounds hw =>
    obtain rfl := Except.error.inj ht
    rw [ha.pc]
    exact tick_of_outside (ha.fetch?.symm.trans hw)
  | @refused w i f hw hd hp =>
    obtain rfl := Except.error.inj ht
    refine tick_of_refused (ha.fetch?.symm.trans hw) hd ?_
    have he := perform_effect (Instruction.decode_fits hd) m
    rw [hp] at he
    cases he with
    | overflow a hfull =>
      rw [ha.pc]
      exact perform_call_of_full (ha.stack ▸ hfull) a
    | underflow hempty => exact perform_ret_of_empty (ha.stack ▸ hempty)
  | unknown | performed => cases ht

/-- Ticks lead from one machine to another: the machines listed tick one after the other, none is
refused, and each takes up what the one before it left.  Time and keys may change in between. -/
inductive Through (m : Machine) : List Machine → Machine → Prop
  | rest {m' : Machine} : m.Agree m' → Through m [] m'
  | tick {done : List Machine} {k next m' : Machine} {i : Option Instruction} :
      Through m done k → k.tick = (.ok i, next) → next.Agree m' → Through m (done ++ [k]) m'

variable {done : List Machine}

theorem Through.agree (h : Through m done m') (ha : m'.Agree m'') : Through m done m'' := by
  cases h with
  | rest h => exact .rest (h.trans ha)
  | tick h ht h' => exact .tick h ht (h'.trans ha)

end Machine

namespace Run

variable {ω ε : Type} {host : Host ω ε} {r next : Run ε} {w w' : ω}
variable {m : Machine} {limit : Option Int} {polls : List Int} {ticks : List Machine}

/-! ### What is noted -/

/-- The machine that the next step tries a tick of. -/
def ticking? (r : Run ε) : Option Machine :=
  match r.phase with
  | .execute => some r.machine
  | _ => none

theorem ticking?_of_ne (h : r.phase ≠ .execute) : r.ticking? = none := by
  unfold ticking?
  split
  · exact absurd ‹_› h
  · rfl

theorem pollTime?_of_ne (h : r.phase ≠ .poll) : r.pollTime? = none :=
  eq_none_of_note pollTime?_eq_some_iff fun hpoll => h hpoll.1

theorem pollTime?_of_due (hp : r.phase = .poll) (hdue : r.nextTick ≤ r.now) :
    r.pollTime? = some r.now :=
  pollTime?_eq_some_iff.mpr ⟨⟨hp, hdue⟩, rfl⟩

/-! ### What is reported -/

/-- What a run of `m` that leaves `m'` may report: the number of its polls, the machines that
ticked, and the report. -/
inductive Tallied (m m' : Machine) (limit : Option Int) : Nat → List Machine → Report → Prop
  | cycleLimit {done : List Machine} : limit.isSome → m.Through done m' →
      Tallied m m' limit done.length done { reason := .cycleLimit, cycles := done.length }
  | quit {done : List Machine} : m.Through done m' →
      Tallied m m' limit (done.length + 1) done { reason := .quit, cycles := done.length }
  | halted {done : List Machine} {k : Machine} {h : Halt} : m.Through done k →
      k.tick = (.error h, k) → k.Agree m' →
      Tallied m m' limit (done.length + 1) (done ++ [k]) (.halted h done.length)

/-- As many polls and ticks have been made as the run has counted, and the ticks have led to its
machine. -/
def Balanced (m : Machine) (polls : List Int) (ticks : List Machine) (r : Run ε) : Prop :=
  polls.length = r.cycles ∧ ticks.length = r.cycles ∧ m.Through ticks r.machine

/-- What a run has to show for its polls and ticks, in every phase. -/
def Accounts (m : Machine) (limit : Option Int) (polls : List Int) (ticks : List Machine)
    (r : Run ε) : Prop :=
  r.limit = limit ∧
  match r.phase with
  | .start => polls = [] ∧ ticks = [] ∧ m = r.machine
  | .look | .poll | .sound | .draw | .measure | .sleep _ => r.Balanced m polls ticks
  -- the poll of a tick comes before the tick
  | .execute => ∃ asked now, polls = asked ++ [now] ∧ r.Balanced m asked ticks
  | .silence o | .over o => ∀ report, o = .ok report →
    Tallied m r.machine limit polls.length ticks report

/-- What has no part in a tick does not change the accounts. -/
theorem Balanced.agree (h : r.Balanced m polls ticks) (hc : next.cycles = r.cycles)
    (ha : r.machine.Agree next.machine) : next.Balanced m polls ticks := by
  obtain ⟨hpolls, hticks, hthrough⟩ := h
  exact ⟨hc ▸ hpolls, hc ▸ hticks, hthrough.agree ha⟩

/-- **A step keeps its accounts.** -/
theorem Step.accounts (h : Step host r w next w') (hr : r.Accounts m limit polls ticks) :
    next.Accounts m limit (polls ++ r.pollTime?.toList) (ticks ++ r.ticking?.toList) := by
  obtain ⟨hlimit, hr⟩ := hr
  refine ⟨h.limit_eq.trans hlimit, ?_⟩
  have hpoll (hp : r.phase ≠ .poll) : polls ++ r.pollTime?.toList = polls := by
    rw [pollTime?_of_ne hp]
    exact List.append_nil polls
  have htick (hp : r.phase ≠ .execute) : ticks ++ r.ticking?.toList = ticks := by
    rw [ticking?_of_ne hp]
    exact List.append_nil ticks
  cases h with
  | begin hp _ =>
    rw [hp] at hr
    obtain ⟨rfl, rfl, rfl⟩ := hr
    rw [hpoll (by simp [hp]), htick (by simp [hp])]
    exact ⟨rfl, rfl, .rest (.refl r.machine)⟩
  | exhausted hp hx =>
    rw [hp] at hr
    obtain ⟨hpolls, hticks, hthrough⟩ := hr
    rw [hpoll (by simp [hp]), htick (by simp [hp])]
    have hsome : limit.isSome := by
      rw [Run.exhausted, hlimit, Option.any_eq_true] at hx
      obtain ⟨n, hn, -⟩ := hx
      exact hn ▸ rfl
    rintro report ⟨⟩
    rw [hpolls, ← hticks]
    exact .cycleLimit hsome hthrough
  | noTick hp hdue =>
    rw [hp] at hr
    have hnone : r.pollTime? = none :=
      eq_none_of_note pollTime?_eq_some_iff fun h => Int.not_lt.mpr h.2 hdue
    rw [hnone, htick (by simp [hp]), Option.toList_none, List.append_nil]
    exact hr.agree rfl (.refl r.machine)
  | polled hp hdue _ =>
    rw [hp] at hr
    rw [pollTime?_of_due hp hdue, htick (by simp [hp])]
    exact ⟨polls, r.now, rfl, hr.agree rfl (.of_rest r.machine _ _ _)⟩
  | quit hp hdue _ =>
    rw [hp] at hr
    obtain ⟨hpolls, hticks, hthrough⟩ := hr
    rw [pollTime?_of_due hp hdue, htick (by simp [hp])]
    rintro report ⟨⟩
    rw [List.length_append, hpolls, ← hticks]
    exact .quit (hthrough.agree (.of_rest r.machine _ _ _))
  | @ticked i n hp ht =>
    rw [hp] at hr
    obtain ⟨asked, now, rfl, hpolls, hticks, hthrough⟩ := hr
    rw [hpoll (by simp [hp]), ticking?, hp]
    exact ⟨by simp [hpolls], by simp [hticks], hthrough.tick ht (.of_rest n _ _ _)⟩
  | @halted halt n hp ht =>
    rw [hp] at hr
    obtain ⟨asked, now, rfl, hpolls, hticks, hthrough⟩ := hr
    have hleft := (Machine.tick_of_halt (congrArg Prod.fst ht)).1
    rw [ht] at hleft
    obtain rfl : n = r.machine := congrArg Prod.snd hleft
    rw [hpoll (by simp [hp]), ticking?, hp]
    rintro report ⟨⟩
    rw [List.length_append, hpolls, ← hticks]
    exact .halted hthrough ht (.of_rest r.machine _ _ _)
  | look hp _ _ | noFrame hp _ | clean hp _ _ | pause hp _ _ | noPause hp _ _ | slept hp _ =>
    rw [hp] at hr
    rw [hpoll (by simp [hp]), htick (by simp [hp])]
    exact hr.agree rfl (.refl r.machine)
  | checked hp hm _ =>
    subst hm
    rw [hp] at hr
    rw [hpoll (by simp [hp]), htick (by simp [hp])]
    exact hr.agree rfl (.of_rest r.machine _ _ _)
  | drawn hp _ _ _ =>
    rw [hp] at hr
    rw [hpoll (by simp [hp]), htick (by simp [hp])]
    exact hr.agree rfl (.of_rest r.machine _ _ _)
  | pollFailed | toneFailed | drawFailed | sleepFailed | silenceFailed => rintro report ⟨⟩
  | silenced hp _ =>
    rw [hp] at hr
    rw [hpoll (by simp [hp]), htick (by simp [hp])]
    exact hr
  | ended hp =>
    rw [hp] at hr ⊢
    rw [hpoll (by simp [hp]), htick (by simp [hp])]
    exact hr

/-! ### A machine that was halted -/

/-- What becomes of a run of a machine that `h` halts: it makes no tick, and what it reports is
`h` or that the user has quit. -/
def Doomed (m : Machine) (h : Halt) (r : Run ε) : Prop :=
  (∀ limit, r.limit = some limit → 1 ≤ limit) ∧
  match r.phase with
  | .start => m.Agree r.machine
  | .look | .poll | .execute | .sound | .draw | .measure | .sleep _ =>
    m.Agree r.machine ∧ r.cycles = 0
  | .silence o | .over o => ∀ report, o = .ok report →
    report = .halted h 0 ∨ report = { reason := .quit, cycles := 0 }

theorem Step.doomed {h : Halt} (hs : Step host r w next w') (hm : m.tick.1 = .error h)
    (hr : r.Doomed m h) : next.Doomed m h := by
  obtain ⟨hroom, hr⟩ := hr
  refine ⟨fun limit hl => hroom limit (hs.limit_eq ▸ hl), ?_⟩
  cases hs with
  | begin hp _ =>
    rw [hp] at hr
    exact ⟨hr, rfl⟩
  | exhausted hp hx =>
    rw [hp] at hr
    rw [Run.exhausted, Option.any_eq_true] at hx
    obtain ⟨limit, hl, hle⟩ := hx
    have hle := of_decide_eq_true hle
    have hlimit := hroom limit hl
    omega
  | quit hp _ _ =>
    rw [hp] at hr
    rintro report ⟨⟩
    exact .inr (by rw [hr.2])
  | ticked hp ht =>
    rw [hp] at hr
    rw [hr.1.tick_of_halt hm] at ht
    cases ht
  | halted hp ht =>
    rw [hp] at hr
    rw [hr.1.tick_of_halt hm] at ht
    obtain ⟨⟨⟩, rfl⟩ := Prod.mk.inj ht
    rintro report ⟨⟩
    exact .inl (by rw [hr.2])
  | look hp _ _ | noTick hp _ | noFrame hp _ | clean hp _ _ | pause hp _ _ | noPause hp _ _
  | slept hp _ =>
    rw [hp] at hr
    exact hr
  | polled hp _ _ | drawn hp _ _ _ =>
    rw [hp] at hr
    exact ⟨hr.1.trans (.of_rest r.machine _ _ _), hr.2⟩
  | checked hp hchecked _ =>
    subst hchecked
    rw [hp] at hr
    exact ⟨hr.1.trans (.of_rest r.machine _ _ _), hr.2⟩
  | pollFailed | toneFailed | drawFailed | sleepFailed | silenceFailed => rintro report ⟨⟩
  | silenced hp _ =>
    rw [hp] at hr
    exact hr
  | ended hp =>
    rw [hp] at hr ⊢
    exact hr

/-- A tick that is tried is refused. -/
theorem Step.silence_of_doomed {h : Halt} (hs : Step host r w next w') (hm : m.tick.1 = .error h)
    (hr : r.Doomed m h) (hp : r.phase = .execute) :
    next.phase = .silence (.ok (.halted h 0)) := by
  obtain ⟨-, hr⟩ := hr
  rw [hp] at hr
  have htick := hr.1.tick_of_halt hm
  cases hs with
  | ticked _ ht =>
    rw [htick] at ht
    cases ht
  | halted _ ht =>
    rw [htick] at ht
    obtain ⟨⟨⟩, -⟩ := Prod.mk.inj ht
    rw [leave, hr.2]
  | _ hp' => rw [hp] at hp'; cases hp'

/-- A beeper that does not fail does not change the outcome. -/
theorem Step.over_of_silence {o : Outcome ε} (hs : Step host r w next w')
    (hp : r.phase = .silence o) (hbeeper : ∀ v, (host.setTone false v).1 = .ok ()) :
    next.outcome? = some o := by
  cases hs with
  | silenced hp' _ =>
    obtain ⟨⟩ := hp.symm.trans hp'
    rfl
  | silenceFailed _ htold =>
    cases htold with
    | news _ e =>
      have hok := hbeeper w
      rw [e] at hok
      cases hok
  | _ hp' => rw [hp] at hp'; cases hp'

/-- Once its poll is answered by going on, the run is over with the next two steps. -/
theorem Doomed.over {h : Halt} (hr : r.Doomed m h) (hm : m.tick.1 = .error h)
    (hp : r.phase = .execute) (hbeeper : ∀ v, (host.setTone false v).1 = .ok ()) (w : ω) :
    (r.after host 2 w).1.outcome? = some (.ok (.halted h 0)) := by
  have hsilence := (advance_step host r w).silence_of_doomed hm hr hp
  exact (advance_step host (r.advance host w).1 (r.advance host w).2).over_of_silence hsilence
    hbeeper

/-- A run on a clock that does not go back asks for the keys first of all. -/
theorem execute_of_poll (hp : r.phase = .start)
    (hroom : ∀ limit, r.limit = some limit → 1 ≤ limit)
    (hclock : (host.read w).1 ≤ (host.read (host.read w).2).1)
    (hgo : (host.poll r.machine.keys (host.read (host.read w).2).2).1.1 = .ok false) :
    (r.after host 3 w).1.phase = .execute := by
  rcases e₁ : host.read w with ⟨t, w₁⟩
  rcases e₂ : host.read w₁ with ⟨now, w₂⟩
  rcases e₃ : host.poll r.machine.keys w₂ with ⟨⟨answer, keys⟩, w₃⟩
  rw [e₁, e₂] at hclock
  rw [e₁, e₂, e₃] at hgo
  obtain rfl : answer = .ok false := hgo
  have hx : (r.begin host w).1.exhausted = false := by
    rw [exhausted, begin, Option.any_eq_false]
    intro limit hl
    have hlimit := hroom limit hl
    simp
    omega
  have hdue : ¬ now < t := Int.not_lt.mpr hclock
  simp only [begin, e₁] at hx
  simp only [after, advance, hp, begin, e₁, look, hx, e₂, poll, hdue, e₃, if_false,
    Bool.false_eq_true]

/-- What `h` has halted it halts again: a further run, on whichever host, comes to no tick.  What
it reports is `h` or that the user has quit; once a poll is answered by going on, the run is over
with the next two steps; and that is the first thing to happen if the clock does not go back. -/
def HaltsAgain (m : Machine) (h : Halt) : Prop :=
  ∀ {ω ε : Type} (host : Host ω ε) (r : Run ε) (w : ω), r.phase = .start → m.Agree r.machine →
    (∀ limit, r.limit = some limit → 1 ≤ limit) → (∀ v, (host.setTone false v).1 = .ok ()) →
    (∀ n report, (r.after host n w).1.outcome? = some (.ok report) →
      report = .halted h 0 ∨ report = { reason := .quit, cycles := 0 }) ∧
    (∀ n, (r.after host n w).1.phase = .execute →
      (r.after host (n + 2) w).1.outcome? = some (.ok (.halted h 0))) ∧
    ((host.read w).1 ≤ (host.read (host.read w).2).1 →
      (host.poll r.machine.keys (host.read (host.read w).2).2).1.1 = .ok false →
        (r.after host 5 w).1.outcome? = some (.ok (.halted h 0)))

theorem haltsAgain {h : Halt} (hm : m.tick.1 = .error h) : HaltsAgain m h := by
  intro ω ε host r w hp ha hroom hbeeper
  have hstart : r.Doomed m h := by
    refine ⟨hroom, ?_⟩
    rw [hp]
    exact ha
  have hdoomed (n : Nat) : (r.after host n w).1.Doomed m h :=
    after_of_step (P := fun r _ => r.Doomed m h) (fun hs hr => hs.doomed hm hr) hstart n
  have hend (n : Nat) (hx : (r.after host n w).1.phase = .execute) :
      (r.after host (n + 2) w).1.outcome? = some (.ok (.halted h 0)) := by
    rw [after_add]
    exact (hdoomed n).over hm hx hbeeper _
  refine ⟨fun n report hover => ?_, hend, fun hclock hgo => ?_⟩
  · obtain ⟨-, hreport⟩ := hdoomed n
    rw [over_of_outcome hover] at hreport
    exact hreport report rfl
  · exact hend 3 (execute_of_poll hp hroom hclock hgo)

/-! ### The accounts -/

/-- The limit of a run tells whether it ended there. -/
theorem cycleLimit_iff {n : Nat} {report : Report} (hstart : r.phase = .start)
    (hover : (r.after host n w).1.outcome? = some (.ok report))
    (hsome : report.reason = .cycleLimit → r.limit.isSome) :
    report.reason = .cycleLimit ↔
      ∃ limit, r.limit = some limit ∧ (report.cycles : Int) = max 0 limit := by
  have hwithin (limit : Int) (hl : r.limit = some limit) :
      if report.reason = .cycleLimit then report.cycles = limit.toNat
        else report.cycles < limit.toNat := by
    have hr : r.Within limit := by
      refine ⟨hl, ?_⟩
      rw [hstart]
      trivial
    obtain ⟨-, hr⟩ : (r.after host n w).1.Within limit :=
      after_of_step (P := fun r _ => r.Within limit) (fun hs h => hs.within h) hr n
    rw [over_of_outcome hover] at hr
    exact hr report rfl
  constructor
  · intro hreason
    obtain ⟨limit, hl⟩ := Option.isSome_iff_exists.mp (hsome hreason)
    have hcycles := hwithin limit hl
    rw [if_pos hreason] at hcycles
    exact ⟨limit, hl, by omega⟩
  · rintro ⟨limit, hl, hcycles⟩
    refine Classical.byContradiction fun hreason => ?_
    have hlt := hwithin limit hl
    rw [if_neg hreason] at hlt
    omega

theorem tallied {n : Nat} {report : Report} (hstart : r.phase = .start)
    (hover : (r.after host n w).1.outcome? = some (.ok report)) :
    Tallied r.machine (r.after host n w).1.machine r.limit
      (r.noted pollTime? host w n).length (r.noted ticking? host w n) report := by
  have hr : r.Accounts r.machine r.limit [] [] := by
    refine ⟨rfl, ?_⟩
    rw [hstart]
    exact ⟨rfl, rfl, rfl⟩
  obtain ⟨-, hr⟩ : (r.after host n w).1.Accounts r.machine r.limit (r.noted pollTime? host w n)
      (r.noted ticking? host w n) :=
    noted_of_step₂ pollTime? ticking?
      (P := fun polls ticks next _ => next.Accounts r.machine r.limit polls ticks)
      (fun hs h => hs.accounts h) hr n
  rw [over_of_outcome hover] at hr
  exact hr report rfl

/-- **A report is what the run has done**, on every host and with every machine.

The reported number of ticks was completed, and they led to the machine that is left; a log of what
the frontend was asked has as many polls in it, and one more unless the cycle limit ended the run.
It did so if and only if there is a limit and as many ticks were completed, or none if the limit is
negative.  A fault is reported unless the user or the limit ended the run, and then the exit code is
not zero; the fault is that of one more tick, which has changed nothing, and every further run halts
with it again. -/
theorem accounted {n : Nat} {report : Report} (hstart : r.phase = .start)
    (hover : (r.after host n w).1.outcome? = some (.ok report)) :
    (r.log host w n).countP Call.isPoll =
      (if report.reason = .cycleLimit then report.cycles else report.cycles + 1) ∧
    (report.reason = .cycleLimit ↔
      ∃ limit, r.limit = some limit ∧ (report.cycles : Int) = max 0 limit) ∧
    (report.fault = none ↔ report.reason = .quit ∨ report.reason = .cycleLimit) ∧
    (report.exitCode = 0 ↔ report.fault = none) ∧
    ∃ done, done.length = report.cycles ∧ r.machine.Through done (r.after host n w).1.machine ∧
      (report.fault = none → r.noted ticking? host w n = done) ∧
      ∀ h, report.fault = some h →
        (report.reason = .bounds ∧ h = .outOfBounds (r.after host n w).1.machine.pc ∨
          report.reason = .stackFault ∧ ∃ f, h = .stack f) ∧
        (∃ k, r.noted ticking? host w n = done ++ [k] ∧ k.tick = (.error h, k) ∧
          k.Agree (r.after host n w).1.machine) ∧
        HaltsAgain (r.after host n w).1.machine h := by
  have htallied := tallied hstart hover
  rw [countP_isPoll_log]
  have hlimit := cycleLimit_iff hstart hover
  generalize (r.after host n w).1.machine = last at htallied ⊢
  generalize (r.noted pollTime? host w n).length = polls at htallied ⊢
  generalize r.noted ticking? host w n = ticks at htallied ⊢
  cases htallied with
  | cycleLimit hsome hthrough =>
    refine ⟨(if_pos rfl).symm, hlimit fun _ => hsome, ?_, ?_, _, rfl, hthrough, fun _ => rfl, nofun⟩
    · exact iff_of_true rfl (.inr rfl)
    · exact iff_of_true rfl rfl
  | quit hthrough =>
    refine ⟨(if_neg nofun).symm, hlimit nofun, ?_, ?_, _, rfl, hthrough, fun _ => rfl, nofun⟩
    · exact iff_of_true rfl (.inl rfl)
    · exact iff_of_true rfl rfl
  | @halted done k halt hthrough ht ha =>
    have hcases := Machine.halt_cases (congrArg Prod.fst ht)
    have hleft : last.tick.1 = .error halt := by rw [ha.tick_of_halt (congrArg Prod.fst ht)]
    refine ⟨(if_neg (ofHalt_ne_cycleLimit halt)).symm, hlimit fun hreason => ?_, ?_, ?_, done, rfl,
      hthrough.agree ha, nofun, ?_⟩
    · exact absurd hreason (ofHalt_ne_cycleLimit halt)
    · refine iff_of_false nofun ?_
      rcases hcases with rfl | ⟨f, rfl⟩ <;> simp [Report.halted, Reason.ofHalt]
    · refine iff_of_false ?_ nofun
      rcases hcases with rfl | ⟨f, rfl⟩ <;> simp [Report.halted, Report.exitCode, Reason.ofHalt]
    · rintro h ⟨⟩
      refine ⟨?_, ⟨k, rfl, ht, ha⟩, haltsAgain hleft⟩
      rw [← ha.pc]
      rcases hcases with rfl | ⟨f, rfl⟩
      · exact .inl ⟨rfl, rfl⟩
      · exact .inr ⟨rfl, f, rfl⟩

/-- A run of a program that sets a register and returns without having been called. -/
def homeless : Run Mishap :=
  .fresh {} (Machine.holding [(0x200, 0x60), (0x201, 0x07), (0x202, 0x00), (0x203, 0xEE)]) (some 9)

theorem homeless_accounted :
    let last := (homeless.after Bench.host 40 {}).1
    last.outcome? = some (.ok (.halted (.stack .underflow) 1)) ∧
      (homeless.log Bench.host {} 40).countP Call.isPoll = 2 ∧
      ((last.again (some 1)).after Bench.host 5 {}).1.outcome? =
        some (.ok (.halted (.stack .underflow) 0)) := by
  have hover : (homeless.after Bench.host 40 {}).1.outcome? =
      some (.ok (.halted (.stack .underflow) 1)) := by decide +kernel
  obtain ⟨hpolls, -, -, -, done, -, -, -, hfault⟩ := accounted (r := homeless) rfl hover
  have hagain (last : Run Mishap) (h : HaltsAgain last.machine (.stack .underflow)) :=
    (h Bench.host (last.again (some 1)) {} rfl (.refl _) (by rintro limit ⟨⟩; decide)
      fun _ => rfl).2.2
  exact ⟨hover, hpolls, hagain _ (hfault _ rfl).2.2 (by decide +kernel) (by decide +kernel)⟩

end Run

end ChipEight
