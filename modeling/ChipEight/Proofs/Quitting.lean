/-
How a worker ends that is requested to quit.

A run learns of the request when it asks for the keys the next time, and then it leaves.  It comes
to no further tick, but if it has just asked, the tick that belongs to that poll is still to come:

    poll, request, tick, poll       or       poll, tick, request, poll.

So after a request the worker tries at most the tick it was about to perform (`Retiring`), and it
reports as many ticks as it has completed in all (`Counts`).

On a steady clock it is not long to the next poll.  `wayOut` bounds the number of steps that the
run still makes, and with two more the worker has ended; how many steps the main thread makes in
between does not matter.

Main results: `follow_quits` and `follow_over`.
-/
import ChipEight.Proofs.Interleaving
import ChipEight.Proofs.Progress

namespace ChipEight

/-- A clock that does not go back does not go back beside a handoff. -/
theorem Handoff.steadyClock {ω ε : Type} {host : Host ω ε} {shows : ω → Int → Prop}
    (hc : host.SteadyClock shows) :
    (Handoff.host host.toClock).SteadyClock fun v => shows v.2 where
  read := by
    rintro ⟨h, w⟩ t _ _ hw ⟨⟩
    exact hc.read hw rfl
  sleep := by
    rintro delay ⟨h, w⟩ t _ _ hw hpos hd ⟨⟩
    exact hc.sleep hw hpos hd rfl
  poll := by
    rintro keys ⟨h, w⟩ t _ _ hw ⟨⟩
    exact ⟨t, Int.le_refl t, hw⟩
  render := by
    rintro picture ⟨h, w⟩ t _ _ hw ⟨⟩
    exact ⟨t, Int.le_refl t, hw⟩
  setTone := by
    rintro on ⟨h, w⟩ t _ _ hw ⟨⟩
    exact ⟨t, Int.le_refl t, hw⟩

namespace Run

variable {ω ε : Type} {host : Host ω ε} {clock : Clock ω ε} {shows : ω → Int → Prop}
variable {r r₁ next : Run ε} {w w' : ω}

/-! ### Counting ticks -/

/-- Whether the tick that the next step performs is completed, if the next step performs one. -/
def tried? (r : Run ε) : Option Bool :=
  match r.phase with
  | .execute => some r.machine.tick.1.isOk
  | _ => none

theorem tried?_of_ne (h : r.phase ≠ .execute) : r.tried? = none := by
  unfold tried?
  split
  · exact absurd ‹_› h
  · rfl

/-- The run has completed `n` ticks, and reports so many when it has left. -/
def Counts (n : Nat) (r : Run ε) : Prop :=
  match r.phase with
  | .start => n = 0
  | .silence o | .over o => ∀ report, o = .ok report → report.cycles = n
  | _ => r.cycles = n

/-- **A step counts the tick that it completes.** -/
theorem Step.counts {n : Nat} (h : Step host r w next w') (hn : r.Counts n) :
    next.Counts (n + r.tried?.toList.count true) := by
  cases h with
  | ticked hp e =>
    rw [Counts, hp] at hn
    simp only [tried?, hp, e]
    exact congrArg (· + 1) hn
  | halted hp e =>
    rw [Counts, hp] at hn
    simp only [tried?, hp, e]
    rintro _ ⟨⟩
    exact hn
  | begin hp =>
    rw [Counts, hp] at hn
    rw [tried?_of_ne (by simp [hp])]
    exact hn.symm
  | exhausted hp | quit hp =>
    rw [Counts, hp] at hn
    rw [tried?_of_ne (by simp [hp])]
    rintro _ ⟨⟩
    exact hn
  | pollFailed | toneFailed | drawFailed | sleepFailed | silenceFailed =>
    intro report e
    cases e
  | look hp | noTick hp | polled hp | checked hp | noFrame hp | clean hp | drawn hp | pause hp
  | noPause hp | slept hp | silenced hp =>
    rw [Counts, hp] at hn
    rw [tried?_of_ne (by simp [hp])]
    exact hn
  | ended hp =>
    rw [tried?_of_ne (by simp [hp])]
    exact hn

/-! ### After a request -/

/-- The error with which the clock refuses the sleep of the next step, if it does. -/
def refusal? (clock : Clock ω ε) (r : Run ε) (w : ω) : Option ε :=
  match r.phase with
  | .sleep delay => failureOf (clock.sleep delay w).1
  | _ => none

/-- How a run may end that is requested to quit when it stands at `r`, after `cycles` ticks in all:
it quits, or it had already ended, or the tick that it was about to perform halts it, or it has
come to its limit, or the clock has refused it a sleep since; `refused` are the errors it did so
with. -/
inductive Quits (r : Run ε) (cycles : Nat) (refused : List ε) : Outcome ε → Prop
  | quit : Quits r cycles refused (.ok { reason := .quit, cycles := cycles })
  | ended {o : Outcome ε} : r.phase = .silence o ∨ r.phase = .over o → Quits r cycles refused o
  | halted {h : Halt} : r.phase = .execute → r.machine.tick.1 = .error h →
      Quits r cycles refused (.ok (.halted h cycles))
  | limited {limit : Int} : r.limit = some limit → limit ≤ cycles →
      Quits r cycles refused (.ok { reason := .cycleLimit, cycles := cycles })
  | sleepless {e : ε} : e ∈ refused → Quits r cycles refused (.error e)

theorem Quits.append {cycles : Nat} {refused : List ε} {o : Outcome ε}
    (h : Quits r cycles refused o) (more : List ε) : Quits r cycles (refused ++ more) o := by
  cases h with
  | quit => exact .quit
  | ended hp => exact .ended hp
  | halted hp ht => exact .halted hp ht
  | limited hl hle => exact .limited hl hle
  | sleepless he => exact .sleepless (List.mem_append_left more he)

/-- How a run stands that was requested to quit when it stood at `r₁`, with `before` ticks
completed, the ticks that it has tried since and the sleeps that it was refused since.  It is not
going to perform a tick, unless it has made no step yet. -/
structure Retiring (r₁ : Run ε) (before : Nat) (tried : List Bool) (refused : List ε)
    (r : Run ε) : Prop where
  counts : r.Counts (before + tried.count true)
  limit : r.limit = r₁.limit
  once : tried <+: r₁.tried?.toList
  standing : match r.phase with
    | .execute => r = r₁ ∧ tried = []
    | .silence o | .over o => Quits r₁ (before + tried.count true) refused o
    | _ => True

theorem retiring_self {n : Nat} (h : r.Counts n) : Retiring r n [] [] r where
  counts := h
  limit := rfl
  once := List.nil_prefix
  standing := by
    split
    · exact ⟨rfl, rfl⟩
    · exact .ended (.inl ‹_›)
    · exact .ended (.inr ‹_›)
    · trivial

theorem handoff_told {h : Handoff} {v : Handoff × ω} {tone on : Bool} {answer : Except ε Unit}
    (ht : Told (Handoff.host clock) tone on (h, w) answer v) : answer = .ok () := by
  cases ht with
  | same _ => rfl
  | news _ e => exact (congrArg Prod.fst e).symm

/-- A run whose next step is no tick has tried the ticks that it has tried before. -/
theorem append_tried? (h : r.phase ≠ .execute) (tried : List Bool) :
    tried ++ r.tried?.toList = tried := by
  rw [tried?_of_ne h, Option.toList_none, List.append_nil]

/-- A run that is requested to quit comes to no further tick. -/
theorem Step.ne_execute {h : Handoff} {v : Handoff × ω}
    (hs : Step (Handoff.host clock) r (h, w) next v) (hq : h.quit = true) :
    next.phase ≠ .execute := by
  cases hs with
  | polled _ _ e =>
    have hno : h.quit = false := Except.ok.inj (congrArg (fun x => x.1.1) e)
    rw [hq] at hno
    cases hno
  | ended hp => simp [hp]
  | _ => simp [leave]

/-- **A step of a run that is requested to quit.** -/
theorem Step.retiring {h : Handoff} {v : Handoff × ω} {before : Nat} {tried : List Bool}
    {refused : List ε} (hs : Step (Handoff.host clock) r (h, w) next v) (hq : h.quit = true)
    (hr : Retiring r₁ before tried refused r) :
    Retiring r₁ before (tried ++ r.tried?.toList) (refused ++ (r.refusal? clock w).toList)
      next where
  counts := by
    rw [List.count_append, ← Nat.add_assoc]
    exact hs.counts hr.counts
  limit := hs.limit_eq.trans hr.limit
  once := by
    by_cases hx : r.phase = .execute
    · have hstanding := hr.standing
      rw [hx] at hstanding
      obtain ⟨rfl, rfl⟩ := hstanding
      exact List.prefix_refl _
    · rw [append_tried? hx]
      exact hr.once
  standing := by
    have hstanding := hr.standing
    have hcounts := hr.counts
    have hnext := hs.ne_execute hq
    cases hs with
    -- the handoff asks to quit and never fails
    | polled => exact absurd rfl hnext
    | pollFailed _ _ e => cases congrArg (fun x => x.1.1) e
    | drawFailed _ _ _ e => cases congrArg Prod.fst e
    | toneFailed _ _ htold | silenceFailed _ htold => cases handoff_told htold
    -- the ways out
    | quit hp =>
      rw [Counts, hp] at hcounts
      rw [append_tried? (by simp [hp]), ← hcounts]
      exact .quit
    | @exhausted hp hx =>
      rw [Counts, hp] at hcounts
      rw [append_tried? (by simp [hp]), ← hcounts]
      obtain ⟨limit, hlimit, hle⟩ := Option.any_eq_true _ _ |>.mp hx
      exact .limited (hr.limit ▸ hlimit) (of_decide_eq_true hle)
    | halted hp e =>
      rw [hp] at hstanding
      obtain ⟨rfl, rfl⟩ := hstanding
      rw [Counts, hp] at hcounts
      have hnone : ([] ++ r.tried?.toList).count true = 0 := by
        simp [tried?, hp, e, Except.isOk, Except.toBool]
      show Quits r _ _ (.ok (.halted _ r.cycles))
      rw [hcounts, hnone]
      exact .halted hp (by rw [e])
    | @sleepFailed delay e v hp hsleep =>
      have hrefused : (clock.sleep delay w).1 = .error e := congrArg Prod.fst hsleep
      refine .sleepless (List.mem_append_right refused ?_)
      simp [refusal?, hp, hrefused, failureOf]
    | silenced hp =>
      rw [hp] at hstanding
      rw [append_tried? (by simp [hp])]
      exact hstanding.append _
    | ended hp =>
      rw [hp] at hstanding ⊢
      rw [append_tried? (by simp [hp])]
      exact hstanding.append _
    | _ => trivial

/-! ### The way out -/

/-- A bound on the number of steps of a run that is requested to quit. -/
def wayOut (r : Run ε) : Nat :=
  match r.phase with
  | .over _ => 0
  | .silence _ => 1
  | .execute => r.execute.distance + 3
  | .start => 8 * (r.pace.frame.toNat + r.pace.timer.toNat) + 12
  | _ => r.distance + 2

theorem wayOut_of_leaving (h : r.Leaving) : r.wayOut ≤ 1 := by
  obtain ⟨o, hp | hp⟩ := h <;> simp [wayOut, hp]

theorem wayOut_of_phase (hstart : r.phase ≠ .start) (htick : r.phase ≠ .execute)
    (hleave : ¬ r.Leaving) : r.wayOut = r.distance + 2 := by
  unfold wayOut
  split
  · exact absurd ⟨_, .inr ‹_›⟩ hleave
  · exact absurd ⟨_, .inl ‹_›⟩ hleave
  · exact absurd ‹_› htick
  · exact absurd ‹_› hstart
  · rfl

theorem wayOut_eq_zero_iff : r.wayOut = 0 ↔ r.outcome?.isSome := by
  unfold wayOut outcome?
  rcases r.phase with - | - | - | - | - | - | - | delay | o | o <;> simp

theorem Step.wayOut_lt_of_start (h : Step host r w next w') (hph : r.phase = .start) :
    next.wayOut < r.wayOut := by
  cases h with
  | begin =>
    simp only [wayOut, distance, owed, hph]
    omega
  | _ => simp_all

theorem Step.wayOut_lt_of_execute (h : Step host r w next w') (hph : r.phase = .execute) :
    next.wayOut < r.wayOut := by
  cases h with
  | ticked _ e =>
    have hexecute : r.execute.distance + 2 < r.wayOut := by
      simp only [wayOut, hph]
      omega
    rw [execute, e] at hexecute
    exact hexecute
  | halted =>
    simp only [wayOut, hph, leave]
    omega
  | _ => simp_all

/-- **A run that is requested to quit comes nearer to its end with every step.** -/
theorem Step.wayOut_lt (hp : r.pace.Brisk) (h : Step host r w next w')
    (hs : r.Steady shows w) (hquit : (host.poll r.machine.keys w).1.1 ≠ .ok false)
    (hover : r.outcome? = none) : next.wayOut < r.wayOut := by
  by_cases hleave : r.Leaving
  · have hnext : next.wayOut = 0 := wayOut_eq_zero_iff.mpr (h.over_of_leaving hleave)
    have hr : r.wayOut ≠ 0 := by
      rw [ne_eq, wayOut_eq_zero_iff, hover]
      nofun
    omega
  by_cases hstart : r.phase = .start
  · exact h.wayOut_lt_of_start hstart
  by_cases htick : r.phase = .execute
  · exact h.wayOut_lt_of_execute htick
  rw [wayOut_of_phase hstart htick hleave]
  by_cases hnext : next.Leaving
  · have hout := wayOut_of_leaving hnext
    omega
  -- the run does not poll, since it would leave, and so it comes nearer to its next poll
  have hpoll : ¬ r.Polls := by
    intro hpoll
    exact hquit ((h.execute_of_polls hpoll).resolve_left hnext).2
  have hlt := (h.distance_lt hp hs hstart htick hpoll hleave).resolve_left hnext
  rw [wayOut_of_phase h.ne_start (fun hx => hpoll (h.polls_of_execute hx)) hnext]
  omega

end Run

namespace Threads

variable {ω ε : Type} {host : Host ω ε} {shows : ω → Int → Prop}
variable {t t' : Threads ε} {w w' : ω}

/-! ### Schedules -/

/-- What is noted of a turn in which the worker goes on with its run. -/
def inRun {α : Type} (note : Run ε → ω → Option α) : Turn → Threads ε → ω → Option α
  | .worker, t, w =>
    match t.workerPhase, t.worker.outcome? with
    | .run, none => note t.worker w
    | _, _ => none
  | .main, _, _ => none

/-- The ticks that are performed in the turns of a schedule, `true` for those completed. -/
def ticks (host : Host ω ε) (s : List Turn) (t : Threads ε) (w : ω) : List Bool :=
  noted (inRun fun r _ => r.tried?) host s t w

/-- The errors with which the clock refuses sleeps of the worker in the turns of a schedule. -/
def refusals (host : Host ω ε) (s : List Turn) (t : Threads ε) (w : ω) : List ε :=
  noted (inRun (Run.refusal? host.toClock)) host s t w

/-- A step of the worker is one of its run, or it is not noted and leaves the run as it is. -/
theorem WorkerStep.run_cases {clock : Clock ω ε} (h : WorkerStep clock t w t' w') :
    (∃ v, Run.Step (Handoff.host clock) t.worker (t.handoff, w) t'.worker v ∧
      ∀ {α : Type} (note : Run ε → ω → Option α), inRun note .worker t w = note t.worker w) ∨
    t'.worker = t.worker ∧
      ∀ {α : Type} (note : Run ε → ω → Option α), inRun note .worker t w = none := by
  cases h with
  | advanced hp ho hs => exact .inl ⟨_, hs, fun note => by simp only [inRun, hp, ho]⟩
  | finished hp ho | failed hp ho =>
    exact .inr ⟨rfl, fun note => by simp only [inRun, hp, Run.outcome?, ho]⟩
  | left hp | rested hp => exact .inr ⟨rfl, fun note => by simp only [inRun, hp]⟩

/-- **What every step of the worker's run keeps of it and of notes of two kinds, every schedule
keeps.**  If the worker was requested to quit, its steps may count on that. -/
theorem follow_worker {α β : Type} (asked : Prop) (note : Run ε → ω → Option α)
    (note' : Run ε → ω → Option β) {P : List α → List β → Run ε → Prop}
    (hstep : ∀ {l l' r next h w v}, (asked → h.quit = true) →
      Run.Step (Handoff.host host.toClock) r (h, w) next v → P l l' r →
      P (l ++ (note r w).toList) (l' ++ (note' r w).toList) next)
    (hasked : asked → t.handoff.quit = true) (h : P [] [] t.worker) (s : List Turn) :
    P (noted (inRun note) host s t w) (noted (inRun note') host s t w)
      (follow host s t w).1.worker := by
  have hkeeps : (asked → (follow host s t w).1.handoff.quit = true) ∧
      P (noted (inRun note) host s t w) (noted (inRun note') host s t w)
        (follow host s t w).1.worker := by
    refine follow_of_step₂ (inRun note) (inRun note')
      (P := fun l l' t _ => (asked → t.handoff.quit = true) ∧ P l l' t.worker) ?_ ⟨hasked, h⟩ s
    intro l l' t w turn ⟨hquit, hl⟩
    refine ⟨fun ha => step_quit turn (hquit ha), ?_⟩
    cases turn with
    | main =>
      rw [step, (mainStep_step ..).worker_eq, inRun, inRun, Option.toList_none,
        Option.toList_none, List.append_nil, List.append_nil]
      exact hl
    | worker =>
      rw [step]
      rcases (workerStep_step host.toClock t w).run_cases with ⟨v, hs, hnote⟩ | ⟨hsame, hnone⟩
      · rw [hnote, hnote]
        exact hstep hquit hs hl
      · rw [hnone, hnone, hsame, Option.toList_none, Option.toList_none, List.append_nil,
          List.append_nil]
        exact hl
  exact hkeeps.2

/-- The worker counts the ticks that it completes. -/
theorem follow_counts (host : Host ω ε) (s : List Turn) {worker : Run ε}
    (hw : worker.phase = .start) (w : ω) :
    (follow host s (start worker) w).1.worker.Counts
      ((ticks host s (start worker) w).count true) := by
  have hstart : worker.Counts (([] : List Bool).count true) := by
    rw [Run.Counts, hw]
    rfl
  refine follow_worker False _ (Run.refusal? host.toClock)
    (P := fun l _ r => r.Counts (l.count true)) ?_ nofun hstart s
  intro l _ r next h w v _ hs hn
  rw [List.count_append]
  exact hs.counts hn

/-- **The worker after a request to quit.** -/
theorem follow_retiring {before : Nat} (hq : t.handoff.quit = true)
    (hn : t.worker.Counts before) (s : List Turn) :
    Run.Retiring t.worker before (ticks host s t w) (refusals host s t w)
      (follow host s t w).1.worker :=
  follow_worker True _ _ (P := Run.Retiring t.worker before)
    (fun hasked hs hr => hs.retiring (hasked trivial) hr) (fun _ => hq) (Run.retiring_self hn) s

/-- **How a worker ends that was requested to quit**, and what it did before. -/
theorem follow_quits {worker : Run ε} (hstart : worker.phase = .start) {s₁ s₂ : List Turn}
    {t₁ t₂ : Threads ε} {w₁ w₂ : ω} (e₁ : follow host s₁ (start worker) w = (t₁, w₁))
    (e₂ : follow host s₂ t₁ w₁ = (t₂, w₂)) (hq : t₁.handoff.quit = true) :
    ticks host s₂ t₁ w₁ <+: t₁.worker.tried?.toList ∧
    ∀ o, t₂.worker.outcome? = some o → Run.Quits t₁.worker
      ((ticks host (s₁ ++ s₂) (start worker) w).count true) (refusals host s₂ t₁ w₁) o := by
  have hcounts := follow_counts host s₁ hstart w
  rw [e₁] at hcounts
  have hretiring : Run.Retiring t₁.worker _ (ticks host s₂ t₁ w₁) (refusals host s₂ t₁ w₁)
      (follow host s₂ t₁ w₁).1.worker := follow_retiring hq hcounts s₂
  rw [e₂] at hretiring
  refine ⟨hretiring.once, fun o ho => ?_⟩
  have hstanding := hretiring.standing
  rw [Run.over_of_outcome ho] at hstanding
  rw [ticks, noted_append, e₁, List.count_append]
  exact hstanding

/-! ### On a steady clock -/

/-- The main thread does not turn back the clock. -/
theorem MainStep.later (hc : host.SteadyClock shows) {failure : Option ε}
    (h : MainStep host.toFrontend t w failure t' w') {now : Int} (hw : shows w now) :
    ∃ u, now ≤ u ∧ shows w' u := by
  cases h with
  | askedToQuit _ e | polled _ e | pollFailed _ e => exact hc.poll hw e
  | presented _ e | presentFailed _ e => exact hc.render hw e
  | sounded _ e | soundFailed _ e | hushed _ e | hushFailed _ e => exact hc.setTone hw e
  | _ => exact ⟨now, Int.le_refl now, hw⟩

/-- The worker runs at a brisk pace and stands where it should by the clock of the outside. -/
structure Regular (shows : ω → Int → Prop) (t : Threads ε) (w : ω) : Prop where
  pace : t.worker.pace.Brisk
  steady : t.worker.Steady (fun v : Handoff × ω => shows v.2) (t.handoff, w)

theorem MainStep.regular (hc : host.SteadyClock shows) {failure : Option ε}
    (h : MainStep host.toFrontend t w failure t' w') (ht : t.Regular shows w) :
    t'.Regular shows w' where
  pace := by
    rw [h.worker_eq]
    exact ht.pace
  steady := by
    rw [h.worker_eq]
    exact ht.steady.later fun now hw => h.later hc hw

theorem WorkerStep.regular (hc : host.SteadyClock shows)
    (h : WorkerStep host.toClock t w t' w') (ht : t.Regular shows w) : t'.Regular shows w' where
  pace := by
    cases h with
    | advanced _ _ hs =>
      show Pace.Brisk (_ : Run ε).pace
      rw [hs.pace_eq]
      exact ht.pace
    | finished | failed | left | rested => exact ht.pace
  steady := by
    cases h with
    | advanced _ _ hs => exact hs.steady (Handoff.steadyClock hc) ht.pace ht.steady
    | finished | left | rested => exact ht.steady
    | failed => exact ht.steady.later fun now hw => ⟨now, Int.le_refl now, hw⟩

theorem step_regular (hc : host.SteadyClock shows) (turn : Turn) (ht : t.Regular shows w) :
    (t.step host turn w).1.Regular shows (t.step host turn w).2 := by
  cases turn with
  | main => exact (mainStep_step ..).regular hc ht
  | worker => exact (workerStep_step ..).regular hc ht

theorem follow_regular (hc : host.SteadyClock shows) (ht : t.Regular shows w) (s : List Turn) :
    (follow host s t w).1.Regular shows (follow host s t w).2 :=
  follow_keeps (P := fun t w => t.Regular shows w) (step_regular hc) ht s

/-- A bound on the number of steps of a worker that is requested to quit. -/
def wayOut (t : Threads ε) : Nat :=
  match t.workerPhase with
  | .run => t.worker.wayOut + 2
  | .leave _ => 1
  | .ended _ => 0

theorem wayOut_eq_zero_iff : t.wayOut = 0 ↔ t.workerAlive = false := by
  rw [not_alive_iff, wayOut]
  rcases t.workerPhase with - | e | o <;> simp

theorem wayOut_le (t : Threads ε) : t.wayOut ≤ t.worker.wayOut + 2 := by
  unfold wayOut
  split <;> omega

/-- With two steps to its end the worker has played its run. -/
theorem Settled.over_of_wayOut_le (hs : t.Settled) (hle : t.wayOut ≤ 2) :
    t.worker.outcome?.isSome := by
  unfold wayOut at hle
  split at hle
  · exact Run.wayOut_eq_zero_iff.mp (by omega)
  all_goals
    obtain ⟨o, ho⟩ := hs.over (by simp [*])
    rw [Run.outcome?, ho]
    rfl

/-- **A step of the worker brings it nearer to its end**, unless it has come there. -/
theorem WorkerStep.wayOut_lt (h : WorkerStep host.toClock t w t' w') (ht : t.Regular shows w)
    (hq : t.handoff.quit = true) (halive : t.workerAlive = true) : t'.wayOut < t.wayOut := by
  cases h with
  | advanced hp ho hs =>
    have hlt := hs.wayOut_lt ht.pace ht.steady (fun hno => ?_) ho
    · simp only [wayOut, hp]
      omega
    · have hfalse : t.handoff.quit = false := Except.ok.inj hno
      rw [hq] at hfalse
      cases hfalse
  | finished hp | failed hp | left hp =>
    simp only [wayOut, hp]
    omega
  | rested hp =>
    rw [not_alive_iff.mpr ⟨_, hp⟩] at halive
    cases halive

/-- A worker that has ended needs no more turns. -/
theorem WorkerStep.wayOut_of_ended (h : WorkerStep host.toClock t w t' w')
    (hended : t.workerAlive = false) : t'.wayOut = 0 := by
  obtain ⟨o, ho⟩ := not_alive_iff.mp hended
  rw [wayOut, h.ended ho]

/-- The turns of the worker bring it nearer to its end, however they are scheduled. -/
theorem follow_wayOut (hc : host.SteadyClock shows) (ht : t.Regular shows w)
    (hq : t.handoff.quit = true) (s : List Turn) :
    (follow host s t w).1.wayOut ≤ t.wayOut - s.count .worker := by
  induction s generalizing t w with
  | nil => exact Nat.le_refl _
  | cons turn rest ih =>
    refine Nat.le_trans (ih (step_regular hc turn ht) (step_quit turn hq)) ?_
    cases turn with
    | main =>
      have h := mainStep_step host.toFrontend t w
      rw [step, wayOut, h.workerPhase_eq, h.worker_eq]
      simp [wayOut]
    | worker =>
      have h := workerStep_step host.toClock t w
      rw [List.count_cons_self, step]
      rcases ha : t.workerAlive with - | -
      · rw [h.wayOut_of_ended ha]
        omega
      · have hlt := h.wayOut_lt ht hq ha
        omega

/-- **The worker ends** with the turns that it still needs, however they are scheduled. -/
theorem follow_over (hc : host.SteadyClock shows) (ht : t.Regular shows w)
    (hq : t.handoff.quit = true) (hs : t.Settled) (s : List Turn) :
    (t.worker.wayOut ≤ s.count .worker → (follow host s t w).1.worker.outcome?.isSome) ∧
    (t.wayOut ≤ s.count .worker → (follow host s t w).1.workerAlive = false) := by
  have hle := follow_wayOut hc ht hq s
  refine ⟨fun hturns => ?_, fun hturns => ?_⟩
  · have hwhole := t.wayOut_le
    exact (follow_settled host hs s w).over_of_wayOut_le (by omega)
  · exact wayOut_eq_zero_iff.mp (by omega)

end Threads

end ChipEight
