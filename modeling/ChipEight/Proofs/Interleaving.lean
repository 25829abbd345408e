/-
All the ways in which two threads may take turns.

A schedule is a list of turns, and the threads follow it step by step:

    follow [main, worker, worker] t  =  t after a step of the main thread and two of the worker.

Nothing is said of fairness, so what holds after every schedule holds however the threads run.

The worker's steps are those of a run with the handoff in the place of a window, and then those in
which it ends (`WorkerStep`); the main thread leaves the run alone (`MainStep`).  Once a request to
quit is in the handoff, nobody takes it back.

Main results: `follow_wants` and `follow_joins`.  The wish to quit is passed on, and so is a failure
of the main thread's frontend.  The main thread ends after the worker has, and it ends with the
failure of its own frontend, if there was one, and else as the worker did.
-/
import ChipEight.Proofs.Advance
import ChipEight.Threads.Lockstep

namespace ChipEight

variable {ω ε α : Type}

/-- What went wrong with a call, if anything. -/
def failureOf : Except ε α → Option ε
  | .ok _ => none
  | .error e => some e

/-! ### Hosts that leave something alone -/

/-- Nothing that a run asks of the outside changes `f`. -/
structure Host.Keeps (host : Host ω ε) (f : ω → α) : Prop where
  read {w t w'} : host.read w = (t, w') → f w' = f w
  sleep {delay w answer w'} : host.sleep delay w = (answer, w') → f w' = f w
  poll {keys w answer w'} : host.poll keys w = (answer, w') → f w' = f w
  render {picture w answer w'} : host.render picture w = (answer, w') → f w' = f w
  setTone {on w answer w'} : host.setTone on w = (answer, w') → f w' = f w

theorem Run.Told.keeps {host : Host ω ε} {f : ω → α} (hk : host.Keeps f) {tone on : Bool}
    {answer : Except ε Unit} {w w' : ω} (h : Told host tone on w answer w') : f w' = f w := by
  cases h with
  | same _ => rfl
  | news _ e => exact hk.setTone e

theorem Run.Step.keeps {host : Host ω ε} {f : ω → α} (hk : host.Keeps f) {r next : Run ε}
    {w w' : ω} (h : Step host r w next w') : f w' = f w := by
  cases h with
  | begin _ e | look _ _ e | pause _ e _ | noPause _ e _ => exact hk.read e
  | polled _ _ e | quit _ _ e | pollFailed _ _ e => exact hk.poll e
  | drawn _ _ _ e | drawFailed _ _ _ e => exact hk.render e
  | slept _ e | sleepFailed _ e => exact hk.sleep e
  | checked _ _ htold | toneFailed _ _ htold | silenced _ htold | silenceFailed _ htold =>
    exact htold.keeps hk
  | exhausted | noTick | ticked | halted | noFrame | clean | ended => rfl

/-- The worker does not take back a request to quit. -/
theorem Handoff.keeps_quit (clock : Clock ω ε) : (host clock).Keeps fun v => v.1.quit where
  read := by
    rintro ⟨h, w⟩ _ _ ⟨⟩
    rfl
  sleep := by
    rintro delay ⟨h, w⟩ _ _ ⟨⟩
    rfl
  poll := by
    rintro keys ⟨h, w⟩ _ _ ⟨⟩
    rfl
  render := by
    rintro picture ⟨h, w⟩ _ _ ⟨⟩
    rfl
  setTone := by
    rintro on ⟨h, w⟩ _ _ ⟨⟩
    rfl

namespace Threads

/-! ### Schedules -/

/-- A step of one of the threads. -/
def step (host : Host ω ε) (turn : Turn) (t : Threads ε) (w : ω) : Threads ε × ω :=
  match turn with
  | .main => t.mainStep host.toFrontend w
  | .worker => t.workerStep host.toClock w

/-- The threads after the turns of a schedule. -/
def follow (host : Host ω ε) : List Turn → Threads ε → ω → Threads ε × ω
  | [], t, w => (t, w)
  | turn :: rest, t, w => follow host rest (t.step host turn w).1 (t.step host turn w).2

/-- What is noted of the turns of a schedule, the earliest first. -/
def noted (note : Turn → Threads ε → ω → Option α) (host : Host ω ε) :
    List Turn → Threads ε → ω → List α
  | [], _, _ => []
  | turn :: rest, t, w =>
    (note turn t w).toList ++ noted note host rest (t.step host turn w).1 (t.step host turn w).2

variable {host : Host ω ε} {t t' : Threads ε} {w w' : ω}

/-- The turns of a schedule are some of them and then the rest. -/
theorem follow_append (host : Host ω ε) (s₁ s₂ : List Turn) (t : Threads ε) (w : ω) :
    follow host (s₁ ++ s₂) t w =
      follow host s₂ (follow host s₁ t w).1 (follow host s₁ t w).2 := by
  induction s₁ generalizing t w with
  | nil => rfl
  | cons turn rest ih => exact ih _ _

/-- What is noted of some turns and then some more. -/
theorem noted_append (note : Turn → Threads ε → ω → Option α) (host : Host ω ε)
    (s₁ s₂ : List Turn) (t : Threads ε) (w : ω) :
    noted note host (s₁ ++ s₂) t w = noted note host s₁ t w ++
      noted note host s₂ (follow host s₁ t w).1 (follow host s₁ t w).2 := by
  induction s₁ generalizing t w with
  | nil => rfl
  | cons turn rest ih =>
    show _ ++ noted note host (rest ++ s₂) _ _ = _
    rw [ih, ← List.append_assoc]
    rfl

/-- **What every turn keeps of the threads and of notes of two kinds, every schedule keeps.** -/
theorem follow_of_step₂ {β : Type} (note : Turn → Threads ε → ω → Option α)
    (note' : Turn → Threads ε → ω → Option β) {P : List α → List β → Threads ε → ω → Prop}
    (hstep : ∀ {l m t w} (turn : Turn), P l m t w →
      P (l ++ (note turn t w).toList) (m ++ (note' turn t w).toList) (t.step host turn w).1
        (t.step host turn w).2)
    {l : List α} {m : List β} (h : P l m t w) (s : List Turn) :
    P (l ++ noted note host s t w) (m ++ noted note' host s t w) (follow host s t w).1
      (follow host s t w).2 := by
  induction s generalizing l m t w with
  | nil =>
    rw [noted, noted, List.append_nil, List.append_nil]
    exact h
  | cons turn rest ih =>
    -- the notes of this turn join the earlier ones
    rw [noted, noted, ← List.append_assoc, ← List.append_assoc]
    exact ih (hstep turn h)

/-- The same for notes of one kind. -/
theorem follow_of_step (note : Turn → Threads ε → ω → Option α)
    {P : List α → Threads ε → ω → Prop}
    (hstep : ∀ {l t w} (turn : Turn), P l t w →
      P (l ++ (note turn t w).toList) (t.step host turn w).1 (t.step host turn w).2)
    {l : List α} (h : P l t w) (s : List Turn) :
    P (l ++ noted note host s t w) (follow host s t w).1 (follow host s t w).2 :=
  follow_of_step₂ note note (P := fun l _ t w => P l t w) hstep (m := []) h s

/-- What every turn keeps of the threads alone, every schedule keeps. -/
theorem follow_keeps {P : Threads ε → ω → Prop}
    (hstep : ∀ {t w} (turn : Turn), P t w → P (t.step host turn w).1 (t.step host turn w).2)
    (h : P t w) (s : List Turn) : P (follow host s t w).1 (follow host s t w).2 :=
  follow_of_step (fun _ _ _ => (none : Option Unit)) (P := fun _ t w => P t w) hstep (l := []) h s

/-! ### The worker -/

/-- What a step of the worker comes to: a step of its run, or after that a step in which it requests
everyone to quit or ends. -/
inductive WorkerStep (clock : Clock ω ε) (t : Threads ε) (w : ω) : Threads ε → ω → Prop
  | advanced {worker : Run ε} {handoff : Handoff} {w' : ω} : t.workerPhase = .run →
      t.worker.outcome? = none →
      Run.Step (Handoff.host clock) t.worker (t.handoff, w) worker (handoff, w') →
      WorkerStep clock t w { t with worker, handoff } w'
  | finished {report : Report} : t.workerPhase = .run → t.worker.phase = .over (.ok report) →
      WorkerStep clock t w { t with workerPhase := .ended (.ok report) } w
  | failed {e : ε} : t.workerPhase = .run → t.worker.phase = .over (.error e) →
      WorkerStep clock t w { t with workerPhase := .leave e, handoff := t.handoff.requestQuit } w
  | left {e : ε} : t.workerPhase = .leave e →
      WorkerStep clock t w { t with workerPhase := .ended (.error e) } w
  | rested {o : Outcome ε} : t.workerPhase = .ended o → WorkerStep clock t w t w

theorem workerStep_step (clock : Clock ω ε) (t : Threads ε) (w : ω) :
    WorkerStep clock t w (t.workerStep clock w).1 (t.workerStep clock w).2 := by
  unfold workerStep
  split
  · split
    · exact .advanced ‹_› ‹_› (Run.advance_step ..)
    · exact .finished ‹_› (Run.over_of_outcome ‹_›)
    · exact .failed ‹_› (Run.over_of_outcome ‹_›)
  · exact .left ‹_›
  · exact .rested ‹_›

/-! ### The main thread -/

/-- The failure of the frontend in the next step of the main thread, if it fails. -/
def failure? (frontend : Frontend ω ε) (t : Threads ε) (w : ω) : Option ε :=
  match t.main with
  | .poll => failureOf (frontend.poll .released w).1.1
  | .present p => failureOf (frontend.render p w).1
  | .sound on => failureOf (frontend.setTone on w).1
  | .hush _ => failureOf (frontend.setTone false w).1
  | _ => none

/-- What a step of the main thread may come to, with the failure of its frontend. -/
inductive MainStep (frontend : Frontend ω ε) (t : Threads ε) (w : ω) :
    Option ε → Threads ε → ω → Prop
  | goesOn : t.main = .check → t.workerAlive = true →
      MainStep frontend t w none { t with main := .poll } w
  | isDone : t.main = .check → t.workerAlive = false →
      MainStep frontend t w none { t with main := .stop none } w
  | askedToQuit {keys : Keypad} {w' : ω} : t.main = .poll →
      frontend.poll .released w = ((.ok true, keys), w') →
      MainStep frontend t w none { t with main := .request keys } w'
  | polled {keys : Keypad} {w' : ω} : t.main = .poll →
      frontend.poll .released w = ((.ok false, keys), w') →
      MainStep frontend t w none { t with main := .publish keys } w'
  | pollFailed {e : ε} {keys : Keypad} {w' : ω} : t.main = .poll →
      frontend.poll .released w = ((.error e, keys), w') →
      MainStep frontend t w (some e) { t with main := .stop (some e) } w'
  | requested {keys : Keypad} : t.main = .request keys →
      MainStep frontend t w none
        { t with main := .publish keys, handoff := t.handoff.requestQuit } w
  | published {keys : Keypad} : t.main = .publish keys →
      MainStep frontend t w none { t with main := .take, handoff := t.handoff.publish keys } w
  | took {p : Picture} : t.main = .take → t.handoff.frame = some p →
      MainStep frontend t w none { t with main := .present p, handoff := t.handoff.take.2 } w
  | tookNothing : t.main = .take → t.handoff.frame = none →
      MainStep frontend t w none { t with main := .listen, handoff := t.handoff.take.2 } w
  | presented {p : Picture} {w' : ω} : t.main = .present p → frontend.render p w = (.ok (), w') →
      MainStep frontend t w none { t with main := .listen } w'
  | presentFailed {p : Picture} {e : ε} {w' : ω} : t.main = .present p →
      frontend.render p w = (.error e, w') →
      MainStep frontend t w (some e) { t with main := .stop (some e) } w'
  | listened : t.main = .listen →
      MainStep frontend t w none { t with main := .sound t.handoff.tone } w
  | sounded {on : Bool} {w' : ω} : t.main = .sound on → frontend.setTone on w = (.ok (), w') →
      MainStep frontend t w none { t with main := .pause } w'
  | soundFailed {on : Bool} {e : ε} {w' : ω} : t.main = .sound on →
      frontend.setTone on w = (.error e, w') →
      MainStep frontend t w (some e) { t with main := .stop (some e) } w'
  | paused : t.main = .pause → MainStep frontend t w none { t with main := .check } w
  | stopped {failure : Option ε} : t.main = .stop failure →
      MainStep frontend t w none
        { t with main := .join failure, handoff := t.handoff.requestQuit } w
  | waited {failure : Option ε} : t.main = .join failure → t.workerAlive = true →
      MainStep frontend t w none t w
  | raised {e : ε} {o : Outcome ε} : t.main = .join (some e) → t.workerPhase = .ended o →
      MainStep frontend t w none { t with main := .over (.error e) } w
  | joined {o : Outcome ε} : t.main = .join none → t.workerPhase = .ended o →
      MainStep frontend t w none { t with main := .hush o } w
  | hushed {o : Outcome ε} {w' : ω} : t.main = .hush o →
      frontend.setTone false w = (.ok (), w') →
      MainStep frontend t w none { t with main := .over o } w'
  | hushFailed {o : Outcome ε} {e : ε} {w' : ω} : t.main = .hush o →
      frontend.setTone false w = (.error e, w') →
      MainStep frontend t w (some e) { t with main := .over (.error e) } w'
  | returned {o : Outcome ε} : t.main = .over o → MainStep frontend t w none t w

theorem not_alive_iff : t.workerAlive = false ↔ ∃ o, t.workerPhase = .ended o := by
  unfold workerAlive workerOutcome?
  rcases hp : t.workerPhase with - | e | o <;> simp

/-- **What a step of the main thread may come to.** -/
theorem mainStep_step (frontend : Frontend ω ε) (t : Threads ε) (w : ω) :
    MainStep frontend t w (t.failure? frontend w) (t.mainStep frontend w).1
      (t.mainStep frontend w).2 := by
  rcases hp : t.main with - | - | keys | keys | - | p | - | on | - | failure | failure | o | o
  -- first the phases that have more than one way to go on
  case check =>
    rcases ha : t.workerAlive with - | - <;> simp only [mainStep, failure?, hp, ha]
    · exact .isDone hp ha
    · exact .goesOn hp ha
  case poll =>
    rcases e : frontend.poll .released w with ⟨⟨e' | - | -, keys⟩, w'⟩ <;>
      simp only [mainStep, failure?, hp, e]
    · exact .pollFailed hp e
    · exact .polled hp e
    · exact .askedToQuit hp e
  case take =>
    rcases hf : t.handoff.frame with - | p <;>
      simp only [mainStep, failure?, hp, Handoff.take, hf]
    · exact .tookNothing hp hf
    · exact .took hp hf
  case present =>
    rcases e : frontend.render p w with ⟨e' | ⟨⟩, w'⟩ <;> simp only [mainStep, failure?, hp, e]
    · exact .presentFailed hp e
    · exact .presented hp e
  case sound =>
    rcases e : frontend.setTone on w with ⟨e' | ⟨⟩, w'⟩ <;> simp only [mainStep, failure?, hp, e]
    · exact .soundFailed hp e
    · exact .sounded hp e
  case join =>
    rcases ha : t.workerAlive with - | -
    · obtain ⟨o, ho⟩ := not_alive_iff.mp ha
      have hsome : t.workerOutcome? = some o := by rw [workerOutcome?, ho]
      rcases failure with - | e <;> simp only [mainStep, failure?, hp, hsome]
      · exact .joined hp ho
      · exact .raised hp ho
    · have hnone : t.workerOutcome? = none := Option.isNone_iff_eq_none.mp ha
      simp only [mainStep, failure?, hp, hnone]
      exact .waited hp ha
  case hush =>
    rcases e : frontend.setTone false w with ⟨e' | ⟨⟩, w'⟩ <;> simp only [mainStep, failure?, hp, e]
    · exact .hushFailed hp e
    · exact .hushed hp e
  all_goals simp only [mainStep, failure?, hp]
  · exact .requested hp
  · exact .published hp
  · exact .listened hp
  · exact .paused hp
  · exact .stopped hp
  · exact .returned hp

/-- The main thread leaves the run of the worker alone. -/
theorem MainStep.worker_eq {frontend : Frontend ω ε} {failure : Option ε}
    (h : MainStep frontend t w failure t' w') : t'.worker = t.worker := by
  cases h <;> rfl

/-- The main thread does not take back a request to quit. -/
theorem MainStep.quit {frontend : Frontend ω ε} {failure : Option ε}
    (h : MainStep frontend t w failure t' w') (hq : t.handoff.quit = true) :
    t'.handoff.quit = true := by
  cases h with
  | requested | stopped => rfl
  | _ => exact hq

theorem WorkerStep.quit {clock : Clock ω ε} (h : WorkerStep clock t w t' w')
    (hq : t.handoff.quit = true) : t'.handoff.quit = true := by
  cases h with
  | advanced _ _ hs =>
    have hkept := hs.keeps (Handoff.keeps_quit clock)
    exact hkept.trans hq
  | failed => rfl
  | finished | left | rested => exact hq

/-- **A request to quit stays.** -/
theorem step_quit (turn : Turn) (hq : t.handoff.quit = true) :
    (t.step host turn w).1.handoff.quit = true := by
  cases turn with
  | main => exact (mainStep_step ..).quit hq
  | worker => exact (workerStep_step ..).quit hq

theorem follow_quit (hq : t.handoff.quit = true) (s : List Turn) :
    (follow host s t w).1.handoff.quit = true :=
  follow_keeps (P := fun t _ => t.handoff.quit = true) step_quit hq s

/-! ### The end of the worker -/

/-- What the worker leaves behind is how its run was over. -/
def Settled (t : Threads ε) : Prop :=
  match t.workerPhase with
  | .run => True
  | .leave e => t.worker.phase = .over (.error e)
  | .ended o => t.worker.phase = .over o

theorem settled_start (worker : Run ε) : (start worker).Settled := trivial

theorem WorkerStep.settled {clock : Clock ω ε} (h : WorkerStep clock t w t' w')
    (hs : t.Settled) : t'.Settled := by
  cases h with
  | advanced hp => rw [Settled, hp]; trivial
  | finished _ ho | failed _ ho => exact ho
  | left hp =>
    rw [Settled, hp] at hs
    exact hs
  | rested => exact hs

theorem MainStep.workerPhase_eq {frontend : Frontend ω ε} {failure : Option ε}
    (h : MainStep frontend t w failure t' w') : t'.workerPhase = t.workerPhase := by
  cases h <;> rfl

theorem step_settled (turn : Turn) (hs : t.Settled) : (t.step host turn w).1.Settled := by
  cases turn with
  | main =>
    have h := mainStep_step host.toFrontend t w
    rw [Settled, step, h.workerPhase_eq, h.worker_eq]
    exact hs
  | worker => exact (workerStep_step ..).settled hs

theorem follow_settled (host : Host ω ε) (hs : t.Settled) (s : List Turn) (w : ω) :
    (follow host s t w).1.Settled :=
  follow_keeps (P := fun t _ => t.Settled) step_settled hs s

/-- A worker that has left its run has played it to the end. -/
theorem Settled.over (hs : t.Settled) (hp : t.workerPhase ≠ .run) :
    ∃ o, t.worker.phase = .over o := by
  unfold Settled at hs
  split at hs
  · exact absurd ‹_› hp
  · exact ⟨_, hs⟩
  · exact ⟨_, hs⟩

/-! ### The end of the main thread -/

/-- The failure of the frontend in a turn. -/
def failureIn? (host : Host ω ε) : Turn → Threads ε → ω → Option ε
  | .main, t, w => t.failure? host.toFrontend w
  | .worker, _, _ => none

/-- The failures of the frontend in the turns of a schedule. -/
def failures (host : Host ω ε) (s : List Turn) (t : Threads ε) (w : ω) : List ε :=
  noted (failureIn? host) host s t w

/-- What the main thread makes of the failures of its frontend. -/
def Joins (failures : List ε) (t : Threads ε) : Prop :=
  match t.main with
  | .stop failure | .join failure => failures = failure.toList
  | .hush o => failures = [] ∧ t.workerPhase = .ended o
  | .over o => ∃ o', t.workerPhase = .ended o' ∧ o = (failures.head?.map .error).getD o'
  | _ => failures = []

/-- A call that fails is the first, since the main thread stops there. -/
theorem MainStep.joins {frontend : Frontend ω ε} {failure : Option ε} {l : List ε}
    (h : MainStep frontend t w failure t' w') (hj : t.Joins l) :
    t'.Joins (l ++ failure.toList) := by
  cases h with
  -- nothing has failed so far, and the next phase says what fails now
  | goesOn hp | isDone hp | askedToQuit hp | polled hp | pollFailed hp | requested hp
  | published hp | took hp | tookNothing hp | presented hp | presentFailed hp | listened hp
  | sounded hp | soundFailed hp | paused hp =>
    rw [Joins, hp] at hj
    subst hj
    rfl
  | stopped hp =>
    rw [Joins, hp] at hj
    subst hj
    exact List.append_nil _
  | waited hp | returned hp =>
    rw [Option.toList_none, List.append_nil]
    exact hj
  -- the worker has ended, and the main thread leaves
  | raised hp ho =>
    rw [Joins, hp] at hj
    subst hj
    exact ⟨_, ho, rfl⟩
  | joined hp ho =>
    rw [Joins, hp] at hj
    subst hj
    exact ⟨rfl, ho⟩
  | hushed hp | hushFailed hp =>
    rw [Joins, hp] at hj
    obtain ⟨rfl, ho⟩ := hj
    exact ⟨_, ho, rfl⟩

/-- A worker that has ended stays as it is. -/
theorem WorkerStep.ended {clock : Clock ω ε} {o : Outcome ε} (h : WorkerStep clock t w t' w')
    (ho : t.workerPhase = .ended o) : t'.workerPhase = .ended o := by
  cases h with
  | rested => exact ho
  | advanced hp | finished hp | failed hp | left hp =>
    rw [hp] at ho
    cases ho

theorem WorkerStep.main_eq {clock : Clock ω ε} (h : WorkerStep clock t w t' w') :
    t'.main = t.main := by
  cases h <;> rfl

theorem WorkerStep.joins {clock : Clock ω ε} {l : List ε} (h : WorkerStep clock t w t' w')
    (hj : t.Joins l) : t'.Joins l := by
  unfold Joins at hj ⊢
  rw [h.main_eq]
  split at hj
  · exact hj
  · exact hj
  · exact ⟨hj.1, h.ended hj.2⟩
  · obtain ⟨o', ho, e⟩ := hj
    exact ⟨o', h.ended ho, e⟩
  · exact hj

theorem step_joins {l : List ε} (turn : Turn) (hj : t.Joins l) :
    (t.step host turn w).1.Joins (l ++ (failureIn? host turn t w).toList) := by
  cases turn with
  | main => exact (mainStep_step ..).joins hj
  | worker =>
    rw [failureIn?, Option.toList_none, List.append_nil]
    exact (workerStep_step ..).joins hj

/-- **The main thread ends after the worker**, with the failure of its frontend, if there was one,
and else as the worker did. -/
theorem follow_joins (host : Host ω ε) (s : List Turn) (worker : Run ε) (w : ω) :
    (follow host s (start worker) w).1.Joins (failures host s (start worker) w) := by
  have hstart : (start worker).Joins ([] : List ε) := rfl
  exact follow_of_step (failureIn? host) (P := fun l t _ => t.Joins l)
    (fun turn hj => step_joins turn hj) hstart s

/-- The worker has ended when the main thread has. -/
theorem Joins.worker_over {l : List ε} {o : Outcome ε} (h : t.Joins l) (hs : t.Settled)
    (ho : t.outcome? = some o) :
    t.workerAlive = false ∧
      ∃ o', t.worker.outcome? = some o' ∧ o = (l.head?.map .error).getD o' := by
  have hm : t.main = .over o := by
    unfold outcome? at ho
    split at ho
    · rename_i hm
      rw [hm, Option.some.inj ho]
    · cases ho
  rw [Joins, hm] at h
  obtain ⟨o', hended, e⟩ := h
  rw [Settled, hended] at hs
  exact ⟨not_alive_iff.mpr ⟨o', hended⟩, o', by rw [Run.outcome?, hs], e⟩

/-! ### Requests to quit -/

/-- The next step of the main thread is answered with the wish to quit, or it fails. -/
def WantsToQuit (frontend : Frontend ω ε) (t : Threads ε) (w : ω) : Prop :=
  t.main = .poll ∧ (frontend.poll .released w).1.1 = .ok true ∨ (t.failure? frontend w).isSome

/-- The worker was requested to quit, or the main thread does it in its next step. -/
def Requests (t : Threads ε) : Prop :=
  t.handoff.quit = true ∨ (∃ keys, t.main = .request keys) ∨ ∃ failure, t.main = .stop failure

/-- A main thread that waits for the worker, or has done so, has requested it to quit. -/
def Parting (t : Threads ε) : Prop :=
  match t.main with
  | .join _ | .hush _ | .over _ => t.handoff.quit = true
  | _ => True

theorem MainStep.parting {frontend : Frontend ω ε} {failure : Option ε}
    (h : MainStep frontend t w failure t' w') (hp : t.Parting) : t'.Parting := by
  cases h with
  | stopped => rfl
  | waited | returned => exact hp
  | raised hm | joined hm | hushed hm | hushFailed hm =>
    rw [Parting, hm] at hp
    exact hp
  | _ => trivial

theorem WorkerStep.parting {clock : Clock ω ε} (h : WorkerStep clock t w t' w')
    (hp : t.Parting) : t'.Parting := by
  unfold Parting at hp ⊢
  rw [h.main_eq]
  split at hp
  · exact h.quit hp
  · exact h.quit hp
  · exact h.quit hp
  · trivial

theorem step_parting (turn : Turn) (hp : t.Parting) : (t.step host turn w).1.Parting := by
  cases turn with
  | main => exact (mainStep_step ..).parting hp
  | worker => exact (workerStep_step ..).parting hp

theorem follow_parting (host : Host ω ε) (s : List Turn) (worker : Run ε) (w : ω) :
    (follow host s (start worker) w).1.Parting := by
  have hstart : (start worker).Parting := trivial
  exact follow_keeps (P := fun t _ => t.Parting) step_parting hstart s

/-- A wish to quit is followed by a request, and so is a failure. -/
theorem MainStep.requests {frontend : Frontend ω ε} {failure : Option ε}
    (h : MainStep frontend t w failure t' w') (hp : t.Parting)
    (hwants : t.main = .poll ∧ (frontend.poll .released w).1.1 = .ok true ∨ failure.isSome) :
    t'.Requests := by
  cases h with
  | pollFailed | presentFailed | soundFailed => exact .inr (.inr ⟨_, rfl⟩)
  | askedToQuit => exact .inr (.inl ⟨_, rfl⟩)
  | hushFailed hm =>
    rw [Parting, hm] at hp
    exact .inl hp
  | polled hm e =>
    rw [e] at hwants
    rcases hwants with ⟨-, hyes⟩ | hfailed
    · cases hyes
    · cases hfailed
  | _ => simp_all

/-- What the main thread is about to request, it requests in its next step. -/
theorem MainStep.quit_of_requests {frontend : Frontend ω ε} {failure : Option ε}
    (h : MainStep frontend t w failure t' w') (hr : t.Requests) : t'.handoff.quit = true := by
  rcases hr with hq | ⟨keys, hm⟩ | ⟨failure, hm⟩
  · exact h.quit hq
  · cases h <;> simp_all [Handoff.requestQuit]
  · cases h <;> simp_all [Handoff.requestQuit]

theorem WorkerStep.requests {clock : Clock ω ε} (h : WorkerStep clock t w t' w')
    (hr : t.Requests) : t'.Requests := by
  unfold Requests at hr ⊢
  rw [h.main_eq]
  exact hr.imp_left h.quit

/-- What is requested now or in the next step is requested after a turn of the main thread. -/
theorem follow_quit_of_requests (hr : t.Requests) {s : List Turn} (hs : .main ∈ s) :
    (follow host s t w).1.handoff.quit = true := by
  induction s generalizing t w with
  | nil => cases hs
  | cons turn rest ih =>
    cases turn with
    | worker =>
      refine ih ((workerStep_step ..).requests hr) ?_
      simpa using hs
    | main => exact follow_quit ((mainStep_step ..).quit_of_requests hr) rest

/-- **A wish to quit, and every failure of the frontend, leads to a request**, at the latest in the
main thread's next step. -/
theorem follow_wants {s : List Turn} (hp : t.Parting) (hwants : t.WantsToQuit host.toFrontend w)
    (hs : .main ∈ s) : (follow host (.main :: s) t w).1.handoff.quit = true :=
  follow_quit_of_requests ((mainStep_step ..).requests hp hwants) hs

end Threads

end ChipEight
