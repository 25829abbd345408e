/-
Threads that take turns, and how they quit.

When the threads take turns and the worker's turns are not limited, the main thread has its turn
only while the worker is between two passes (`InStep`).  A request to quit finds the worker there,
so no tick is performed any more.

On a steady clock the threads then come to their end.  A step of the worker brings it nearer to its
end, and in between the main thread goes through its pass, at most thirteen steps; when the worker
has ended, the main thread has one pass left:

    40 * way out of the worker + steps to the end of the main thread's turn.

Main result: `Threads.quit_and_join`.
-/
import ChipEight.Proofs.Quitting

namespace ChipEight

namespace Threads

variable {ω ε : Type} {frontend : Frontend ω ε} {t t' : Threads ε} {w w' : ω}

/-- How far the main thread is from the end of its turn, while the worker is alive, and from its
own end after that. -/
def rank (alive : Bool) : MainPhase ε → Nat
  | .poll => 12
  | .request _ => 11
  | .publish _ => 10
  | .take => 9
  | .present _ => 8
  | .listen => 7
  | .sound _ => 6
  | .pause => 5
  | .check => if alive then 13 else 4
  | .stop _ => 3
  | .join _ => 2
  | .hush _ => 1
  | .over _ => 0

theorem rank_le (alive : Bool) (p : MainPhase ε) : rank alive p ≤ 13 := by
  cases p <;> cases alive <;> simp [rank]

/-- The main thread gives the turn to a worker that has not ended when it pauses and when it
waits. -/
def Yields (t : Threads ε) : Prop :=
  t.workerAlive = true ∧ (t.main = .pause ∨ ∃ failure, t.main = .join failure)

/-- **A step of the main thread brings it nearer to the end of its turn**, unless it gives the turn
away. -/
theorem MainStep.rank_lt {failure : Option ε} (h : MainStep frontend t w failure t' w')
    (hover : t.outcome? = none) :
    t.Yields ∨ rank t.workerAlive t'.main < rank t.workerAlive t.main := by
  cases h with
  | goesOn hp ha | isDone hp ha =>
    rw [hp, ha]
    exact .inr (by simp [rank])
  | paused hp =>
    rcases ha : t.workerAlive with - | -
    · rw [hp]
      exact .inr (by simp [rank])
    · exact .inl ⟨ha, .inl hp⟩
  | waited hp ha => exact .inl ⟨ha, .inr ⟨_, hp⟩⟩
  | returned hp =>
    rw [outcome?, hp] at hover
    cases hover
  | askedToQuit hp | polled hp | pollFailed hp | requested hp | published hp | took hp
  | tookNothing hp | presented hp | presentFailed hp | listened hp | sounded hp | soundFailed hp
  | stopped hp | raised hp | joined hp | hushed hp | hushFailed hp =>
    rw [hp]
    exact .inr (by simp [rank])

end Threads

namespace Lockstep

variable {ω ε : Type} {host : Host ω ε} {shows : ω → Int → Prop} {s : Lockstep ε} {w : ω}

/-! ### Turns -/

/-- The threads after a number of steps. -/
def after (host : Host ω ε) : Nat → Lockstep ε → ω → Lockstep ε × ω
  | 0, s, w => (s, w)
  | n + 1, s, w => after host n (s.advance host w).1 (s.advance host w).2

/-- A step of the thread whose turn it is, and then the turn may change. -/
theorem advance_eq (host : Host ω ε) (s : Lockstep ε) (w : ω) :
    s.advance host w =
      ({ s with
          threads := (s.threads.step host s.turn w).1
          turn := s.turnAfter (s.threads.step host s.turn w).1
          made := if s.turnAfter (s.threads.step host s.turn w).1 = s.turn then s.made + 1 else 0 },
        (s.threads.step host s.turn w).2) := by
  unfold advance
  rcases s.turn with - | - <;> rfl

theorem advance_threads (host : Host ω ε) (s : Lockstep ε) (w : ω) :
    ((s.advance host w).1.threads, (s.advance host w).2) = s.threads.step host s.turn w := by
  rw [advance_eq]

theorem advance_turn (host : Host ω ε) (s : Lockstep ε) (w : ω) :
    (s.advance host w).1.turn = s.turnAfter (s.threads.step host s.turn w).1 := by
  rw [advance_eq]

/-- **Taking turns is one of the schedules.** -/
theorem after_follows (host : Host ω ε) (n : Nat) (s : Lockstep ε) (w : ω) :
    ∃ schedule, Threads.follow host schedule s.threads w =
      ((after host n s w).1.threads, (after host n s w).2) := by
  induction n generalizing s w with
  | zero => exact ⟨[], rfl⟩
  | succ n ih =>
    obtain ⟨schedule, h⟩ := ih (s.advance host w).1 (s.advance host w).2
    refine ⟨s.turn :: schedule, ?_⟩
    rw [Threads.follow, ← advance_threads]
    exact h

theorem start_follows (host : Host ω ε) (n : Nat) (worker : Run ε) (limit : Option Nat) (w : ω) :
    ∃ schedule, Threads.follow host schedule (.start worker) w =
      ((after host n (start worker limit) w).1.threads, (after host n (start worker limit) w).2) :=
  after_follows host n (start worker limit) w

/-- The last of many steps. -/
theorem after_succ (host : Host ω ε) (n : Nat) (s : Lockstep ε) (w : ω) :
    after host (n + 1) s w =
      (after host n s w).1.advance host (after host n s w).2 := by
  induction n generalizing s w with
  | zero => rfl
  | succ n ih => exact ih ..

/-- Many steps are some of them and then the rest. -/
theorem after_add (host : Host ω ε) (n m : Nat) (s : Lockstep ε) (w : ω) :
    after host (n + m) s w = after host m (after host n s w).1 (after host n s w).2 := by
  induction m with
  | zero => rfl
  | succ m ih =>
    rw [after_succ, ← ih]
    exact after_succ host (n + m) s w

/-! ### Where a request finds the worker -/

/-- A run that stands between two passes, or outside of all. -/
def Pausing (r : Run ε) : Prop := r.phase = .start ∨ r.phase = .look ∨ ∃ o, r.phase = .over o

theorem Pausing.ne_execute {r : Run ε} (h : Pausing r) : r.phase ≠ .execute := by
  rcases h with h | h | ⟨o, h⟩ <;> simp [h]

/-- Turns that are not limited: the main thread finds the worker between two passes, and a worker
that was requested to quit performs no tick. -/
structure InStep (s : Lockstep ε) : Prop where
  limit : s.limit = none
  settled : s.threads.Settled
  pausing : s.turn = .main → Pausing s.threads.worker
  quit : s.threads.handoff.quit = true → s.threads.worker.phase ≠ .execute

theorem inStep_start {worker : Run ε} (h : worker.phase = .start) : (start worker none).InStep where
  limit := rfl
  settled := trivial
  pausing := fun _ => .inl h
  quit := nofun

theorem advance_limit (host : Host ω ε) (s : Lockstep ε) (w : ω) :
    (s.advance host w).1.limit = s.limit := by
  rw [advance_eq]

/-- The worker gives the turn away when it has slept, and when it has ended. -/
theorem pausing_of_turnAfter {next : Threads ε} (hlimit : s.limit = none) (hturn : s.turn = .worker)
    (hnext : next.Settled) (h : s.turnAfter next = .main) : Pausing next.worker := by
  unfold turnAfter at h
  rw [hturn] at h
  dsimp only at h
  split at h
  · exact .inr (.inl ‹_›)
  · have hended : next.workerAlive = false := by
      simpa [isWornOut, hlimit] using h
    obtain ⟨o, ho⟩ := Threads.not_alive_iff.mp hended
    exact .inr (.inr (hnext.over (by rw [ho]; nofun)))

/-- A worker that is requested to quit, or that quits with an error, is not about to perform a
tick. -/
theorem ne_execute_of_workerStep {clock : Clock ω ε} {t t' : Threads ε} {w w' : ω}
    (h : Threads.WorkerStep clock t w t' w')
    (hbefore : t.handoff.quit = true → t.worker.phase ≠ .execute)
    (hq : t'.handoff.quit = true) : t'.worker.phase ≠ .execute := by
  cases h with
  | advanced _ _ hs =>
    have hkept := hs.keeps (Handoff.keeps_quit clock)
    exact hs.ne_execute (hkept.symm.trans hq)
  | finished _ ho | failed _ ho => simp [ho]
  | left | rested => exact hbefore hq

/-- **A step of threads that take turns.** -/
theorem InStep.advance (h : s.InStep) (host : Host ω ε) (w : ω) : (s.advance host w).1.InStep := by
  have hthreads : (s.advance host w).1.threads = (s.threads.step host s.turn w).1 :=
    congrArg Prod.fst (advance_threads host s w)
  have hturn := advance_turn host s w
  have hsettled : (s.threads.step host s.turn w).1.Settled := Threads.step_settled s.turn h.settled
  refine ⟨(advance_limit host s w).trans h.limit, hthreads ▸ hsettled, fun hmain => ?_,
    fun hq => ?_⟩
  -- the main thread keeps the turn, or the worker gives it away
  · rw [hthreads]
    rw [hturn] at hmain
    rcases ht : s.turn with - | -
    · rw [Threads.step, (Threads.mainStep_step ..).worker_eq]
      exact h.pausing ht
    · rw [ht] at hmain hsettled
      exact pausing_of_turnAfter h.limit ht hsettled hmain
  -- the request may be made in this very step
  · rw [hthreads] at hq ⊢
    rcases ht : s.turn with - | - <;> rw [ht] at hq
    · rw [Threads.step, (Threads.mainStep_step ..).worker_eq]
      exact (h.pausing ht).ne_execute
    · exact ne_execute_of_workerStep (Threads.workerStep_step ..) h.quit hq

theorem InStep.after (h : s.InStep) (host : Host ω ε) (n : Nat) (w : ω) :
    (after host n s w).1.InStep := by
  induction n with
  | zero => exact h
  | succ n ih =>
    rw [after_succ]
    exact ih.advance host _

/-! ### The way to the end -/

/-- How far the main thread is from the end of its turn, or from its own end when the worker has
ended and the turns go to and fro. -/
def stage (alive : Bool) (turn : Turn) (p : MainPhase ε) : Nat :=
  match alive, turn with
  | true, .worker => 0
  | true, .main => Threads.rank true p
  | false, .worker => 2 * Threads.rank false p + 1
  | false, .main => 2 * Threads.rank false p

theorem stage_lt (alive : Bool) (turn : Turn) (p : MainPhase ε) : stage alive turn p < 40 := by
  have hrank := Threads.rank_le alive p
  cases alive <;> cases turn <;> simp only [stage] <;> omega

theorem stage_lt_of_rank_lt {alive : Bool} {p p' : MainPhase ε} (turn : Turn)
    (h : Threads.rank alive p' < Threads.rank alive p) :
    stage alive turn p' < stage alive .main p := by
  cases alive <;> cases turn <;> simp only [stage] <;> omega

theorem stage_lt_of_yields {t : Threads ε} (h : t.Yields) (p : MainPhase ε) :
    stage t.workerAlive .worker p < stage t.workerAlive .main t.main := by
  obtain ⟨halive, hp | ⟨failure, hp⟩⟩ := h <;> simp [stage, Threads.rank, halive, hp]

/-- A bound on the number of steps of two threads that take turns, after a request to quit. -/
def toGo (s : Lockstep ε) : Nat :=
  40 * s.threads.wayOut + stage s.threads.workerAlive s.turn s.threads.main

theorem toGo_advance (host : Host ω ε) (s : Lockstep ε) (w : ω) :
    (s.advance host w).1.toGo =
      40 * (s.threads.step host s.turn w).1.wayOut +
        stage (s.threads.step host s.turn w).1.workerAlive
          (s.turnAfter (s.threads.step host s.turn w).1) (s.threads.step host s.turn w).1.main := by
  rw [toGo, advance_turn, ← advance_threads]

theorem turnAfter_of_yields {next : Threads ε} (hturn : s.turn = .main) (h : s.threads.Yields) :
    s.turnAfter next = .worker := by
  obtain ⟨halive, hp | ⟨failure, hp⟩⟩ := h
  · simp only [turnAfter, hturn, hp]
  · simp only [turnAfter, hturn, hp, halive, if_true]

theorem turnAfter_of_over {next : Threads ε} (hturn : s.turn = .worker)
    (hlook : next.workerAlive = false) : s.turnAfter next = .main := by
  simp only [turnAfter, hturn, hlook, Bool.false_and]
  split <;> rfl

/-- A step of the main thread leaves the worker where it is. -/
theorem toGo_lt_of_main (hturn : s.turn = .main) (hover : s.outcome? = none) :
    (s.advance host w).1.toGo < s.toGo := by
  have h := Threads.mainStep_step host.toFrontend s.threads w
  have hway : (s.threads.mainStep host.toFrontend w).1.wayOut = s.threads.wayOut := by
    rw [Threads.wayOut, h.workerPhase_eq, h.worker_eq, Threads.wayOut]
  have halive : (s.threads.mainStep host.toFrontend w).1.workerAlive = s.threads.workerAlive := by
    rw [Threads.workerAlive, Threads.workerOutcome?, h.workerPhase_eq]
    rfl
  rw [toGo_advance, hturn, Threads.step, hway, halive, toGo, hturn]
  refine Nat.add_lt_add_left ?_ _
  rcases h.rank_lt hover with hyields | hlt
  · rw [turnAfter_of_yields hturn hyields]
    exact stage_lt_of_yields hyields _
  · exact stage_lt_of_rank_lt _ hlt

/-- A step of the worker brings it nearer to its end, or gives back the turn if it has ended. -/
theorem toGo_lt_of_worker (hturn : s.turn = .worker) (ht : s.threads.Regular shows w)
    (hq : s.threads.handoff.quit = true) : (s.advance host w).1.toGo < s.toGo := by
  have h := Threads.workerStep_step host.toClock s.threads w
  rw [toGo_advance, hturn, Threads.step, toGo, hturn]
  rcases ha : s.threads.workerAlive with - | -
  -- a worker that has ended makes a step that changes nothing
  · obtain ⟨o, ho⟩ := Threads.not_alive_iff.mp ha
    have hended : (s.threads.workerStep host.toClock w).1.workerAlive = false :=
      Threads.not_alive_iff.mpr ⟨o, h.ended ho⟩
    rw [h.wayOut_of_ended ha, turnAfter_of_over hturn hended, hended, h.main_eq]
    simp only [stage]
    omega
  -- whatever the turns come to now, they count less than the worker's step
  · have hlt := h.wayOut_lt ht hq ha
    have hstage := stage_lt (s.threads.workerStep host.toClock w).1.workerAlive
      (s.turnAfter (s.threads.workerStep host.toClock w).1)
      (s.threads.workerStep host.toClock w).1.main
    omega

/-- **The threads come to their end**, when the worker was requested to quit. -/
theorem ends (hc : host.SteadyClock shows) (ht : s.threads.Regular shows w)
    (hq : s.threads.handoff.quit = true) : ∃ n, (after host n s w).1.outcome?.isSome := by
  induction hd : s.toGo using Nat.strongRecOn generalizing s w with
  | ind d ih =>
    rcases hover : s.outcome? with - | o
    · have hadvance := advance_threads host s w
      have hlt : (s.advance host w).1.toGo < s.toGo := by
        rcases hturn : s.turn with - | -
        · exact toGo_lt_of_main hturn hover
        · exact toGo_lt_of_worker hturn ht hq
      have hregular := Threads.step_regular hc s.turn ht
      have hquit : (s.threads.step host s.turn w).1.handoff.quit = true := Threads.step_quit _ hq
      rw [← hadvance] at hregular hquit
      obtain ⟨n, hn⟩ := ih _ (hd ▸ hlt) hregular hquit rfl
      exact ⟨n + 1, hn⟩
    · exact ⟨0, by rw [after, hover]; rfl⟩

/-- A request to quit stays, and the worker performs no tick any more. -/
theorem InStep.quit_after (h : s.InStep) (hq : s.threads.handoff.quit = true) (host : Host ω ε)
    (n : Nat) (w : ω) : (Lockstep.after host n s w).1.threads.worker.phase ≠ .execute := by
  have hquit : (Lockstep.after host n s w).1.threads.handoff.quit = true := by
    obtain ⟨schedule, e⟩ := after_follows host n s w
    have hkept : (Threads.follow host schedule s.threads w).1.handoff.quit = true :=
      Threads.follow_quit hq schedule
    rw [e] at hkept
    exact hkept
  exact (h.after host n w).quit hquit

/-- Two threads that take turns both end after a request. -/
theorem start_ends {worker : Run ε} {n : Nat} (hc : host.SteadyClock shows)
    (hregular : (Threads.start worker).Regular shows w)
    (hq : (after host n (start worker none) w).1.threads.handoff.quit = true) :
    ∃ m, n ≤ m ∧ (after host m (start worker none) w).1.threads.worker.outcome?.isSome ∧
      (after host m (start worker none) w).1.threads.workerAlive = false ∧
      (after host m (start worker none) w).1.outcome?.isSome := by
  obtain ⟨schedule, e⟩ := start_follows host n worker none w
  have ht := Threads.follow_regular hc hregular schedule
  rw [e] at ht
  obtain ⟨m, hm⟩ := ends hc ht hq
  rw [← after_add] at hm
  obtain ⟨o, ho⟩ := Option.isSome_iff_exists.mp hm
  obtain ⟨all, e'⟩ := start_follows host (n + m) worker none w
  have hjoins := Threads.follow_joins host all worker w
  have hsettled := Threads.follow_settled host (Threads.settled_start worker) all w
  rw [e'] at hjoins hsettled
  obtain ⟨hended, o', ho', -⟩ := hjoins.worker_over hsettled ho
  exact ⟨n + m, Nat.le_add_right n m, by rw [ho']; rfl, hended, hm⟩

end Lockstep

namespace Threads

variable {ω ε : Type}

/-! ### Quitting -/

/-- A worker that is about to run stands where it should. -/
theorem regular_start {c : Config} {worker : Run ε} {rate now : Int} {shows : ω → Int → Prop}
    {w : ω} (hworker : worker.Begins c) (htick : 1 ≤ c.clockRate)
    (hframe : 1 ≤ c.frameRate ∧ c.frameRate ≤ second) (htimer : 1 ≤ rate ∧ rate ≤ second)
    (hperiod : worker.machine.timers.period = second.fdiv rate) (hw : shows w now) :
    (start worker).Regular shows w where
  pace := hworker.brisk htick hframe htimer hperiod
  steady := Run.steady_start hworker.phase hw

/-- **Quitting two threads.**  The frontend does not matter, nor the order of the steps, the machine
and its program.

A wish to quit or a failure of the frontend leads to a request.  After a request the worker performs
at most the tick that it had polled for, and when its run is over, it has quit after the ticks
completed in all, unless it was over before, that tick halts it, it has come to its limit, or the
clock has refused it a sleep since.

The main thread ends after the worker, with the failure of its frontend if there was one, and else
as the worker did.

When the threads take turns there is no tick any more after a request.  On a clock that does not go
back and sleeps as long as it is asked to, or longer, the worker plays its run to the end and ends
with the turns that it still needs, however the threads are scheduled; and when they take turns,
both end. -/
theorem quit_and_join {c : Config} {worker : Run ε} (hworker : worker.Begins c) (host : Host ω ε)
    (w : ω) :
    (∀ s₁ s₂ t₁ w₁, follow host s₁ (start worker) w = (t₁, w₁) →
      t₁.WantsToQuit host.toFrontend w₁ → .main ∈ s₂ →
      (follow host (.main :: s₂) t₁ w₁).1.handoff.quit = true) ∧
    (∀ s₁ s₂ t₁ w₁ t₂ w₂, follow host s₁ (start worker) w = (t₁, w₁) →
      follow host s₂ t₁ w₁ = (t₂, w₂) → t₁.handoff.quit = true →
      ticks host s₂ t₁ w₁ <+: t₁.worker.tried?.toList ∧
      ∀ o, t₂.worker.outcome? = some o → Run.Quits t₁.worker
        ((ticks host (s₁ ++ s₂) (start worker) w).count true) (refusals host s₂ t₁ w₁) o) ∧
    (∀ s t w' o, follow host s (start worker) w = (t, w') → t.outcome? = some o →
      t.workerAlive = false ∧ ∃ o', t.worker.outcome? = some o' ∧
        o = ((failures host s (start worker) w).head?.map .error).getD o') ∧
    (∀ n m, n ≤ m →
      (Lockstep.after host n (.start worker none) w).1.threads.handoff.quit = true →
      (Lockstep.after host m (.start worker none) w).1.threads.worker.phase ≠ .execute) ∧
    ∀ rate now (shows : ω → Int → Prop), 1 ≤ c.clockRate →
      1 ≤ c.frameRate ∧ c.frameRate ≤ second → 1 ≤ rate ∧ rate ≤ second →
      worker.machine.timers.period = second.fdiv rate → host.SteadyClock shows → shows w now →
      (∀ s₁ s₂ t₁ w₁, follow host s₁ (start worker) w = (t₁, w₁) → t₁.handoff.quit = true →
        (t₁.worker.wayOut ≤ s₂.count .worker →
          (follow host s₂ t₁ w₁).1.worker.outcome?.isSome) ∧
        (t₁.wayOut ≤ s₂.count .worker → (follow host s₂ t₁ w₁).1.workerAlive = false)) ∧
      ∀ n, (Lockstep.after host n (.start worker none) w).1.threads.handoff.quit = true →
        ∃ m, n ≤ m ∧
          (Lockstep.after host m (.start worker none) w).1.threads.worker.outcome?.isSome ∧
          (Lockstep.after host m (.start worker none) w).1.threads.workerAlive = false ∧
          (Lockstep.after host m (.start worker none) w).1.outcome?.isSome := by
  have hinStep (n : Nat) := (Lockstep.inStep_start hworker.phase).after host n w
  refine ⟨?_, ?_, ?_, ?_, ?_⟩
  · intro s₁ s₂ t₁ w₁ e hwants hmain
    have hparting := follow_parting host s₁ worker w
    rw [e] at hparting
    exact follow_wants hparting hwants hmain
  · intro s₁ s₂ t₁ w₁ t₂ w₂ e₁ e₂ hq
    exact follow_quits hworker.phase e₁ e₂ hq
  · intro s t w' o e ho
    have hjoins := follow_joins host s worker w
    have hsettled := follow_settled host (settled_start worker) s w
    rw [e] at hjoins hsettled
    exact hjoins.worker_over hsettled ho
  · intro n m hle hq
    obtain ⟨k, rfl⟩ := Nat.exists_eq_add_of_le hle
    rw [Lockstep.after_add]
    exact (hinStep n).quit_after hq host k _
  · intro rate now shows htick hframe htimer hperiod hc hw
    have hregular := regular_start hworker htick hframe htimer hperiod hw
    refine ⟨?_, ?_⟩
    · intro s₁ s₂ t₁ w₁ e hq
      have ht := follow_regular hc hregular s₁
      have hsettled := follow_settled host (settled_start worker) s₁ w
      rw [e] at ht hsettled
      exact follow_over hc ht hq hsettled s₂
    · intro n hq
      exact Lockstep.start_ends hc hregular hq

/-- A worker on a program that goes round in place. -/
def circling : Run Mishap :=
  .fresh {} (Machine.holding [(0x200, 0x12), (0x201, 0x00)]) none

/-- A bench whose user quits at once. -/
def impatient : Bench where
  frontend := { script := { quitAfterPolls := some 0 } }

/-- The worker polls, and before it performs the tick, the main thread requests it to quit. -/
def overtaking : List Turn := [.worker, .worker, .worker, .main, .main, .main]

def overtaken : Threads Mishap × Bench :=
  follow Bench.host overtaking (start circling) impatient

theorem circling_quit_and_join :
    circling.Begins {} ∧ overtaken.1.handoff.quit = true ∧
    overtaken.1.worker.tried? = some true ∧
    (∀ s o, (follow Bench.host s overtaken.1 overtaken.2).1.worker.outcome? = some o →
      ticks Bench.host s overtaken.1 overtaken.2 <+: [true] ∧
      Run.Quits overtaken.1.worker
        ((ticks Bench.host (overtaking ++ s) (start circling) impatient).count true)
        (refusals Bench.host s overtaken.1 overtaken.2) o) ∧
    (∃ n, (follow Bench.host (.replicate n .worker) overtaken.1 overtaken.2).1.worker.outcome?
      |>.isSome) ∧
    (∃ n, (follow Bench.host (.replicate n .worker) overtaken.1 overtaken.2).1.workerAlive =
      false) ∧
    ∃ m, 3 ≤ m ∧
      (Lockstep.after Bench.host m (.start circling none) impatient).1.outcome?.isSome ∧
      (Lockstep.after Bench.host m (.start circling none) impatient).1.threads.worker.phase ≠
        .execute := by
  have hbegins : circling.Begins {} := Run.begins_fresh ..
  have hquit : overtaken.1.handoff.quit = true := by decide +kernel
  have htried : overtaken.1.worker.tried? = some true := by decide +kernel
  have hasked :
      (Lockstep.after Bench.host 3 (.start circling none) impatient).1.threads.handoff.quit := by
    decide +kernel
  have hrate : (1 : Int) ≤ 60 ∧ 60 ≤ second := by decide
  have hclock : impatient.clock.Steady 0 := ⟨rfl, by decide, by decide⟩
  obtain ⟨-, hticks, -, hnone, hends⟩ := quit_and_join hbegins Bench.host impatient
  obtain ⟨hworker, hboth⟩ := hends 60 0 _ (by decide) (by decide) hrate rfl Bench.steadyClock hclock
  have hturns (n : Nat) :=
    hworker overtaking (.replicate n .worker) overtaken.1 overtaken.2 rfl hquit
  refine ⟨hbegins, hquit, htried, fun s o ho => ?_, ?_, ?_, ?_⟩
  · obtain ⟨honce, hover⟩ := hticks overtaking s _ _ _ _ rfl rfl hquit
    have htick : overtaken.1.worker.tried?.toList = [true] := by rw [htried]; rfl
    exact ⟨htick ▸ honce, hover o ho⟩
  · exact ⟨_, (hturns _).1 (Nat.le_of_eq List.count_replicate_self.symm)⟩
  · exact ⟨_, (hturns _).2 (Nat.le_of_eq List.count_replicate_self.symm)⟩
  · obtain ⟨m, hle, -, -, hover⟩ := hboth 3 hasked
    exact ⟨m, hle, hover, hnone 3 m hle hasked⟩

end Threads

end ChipEight
