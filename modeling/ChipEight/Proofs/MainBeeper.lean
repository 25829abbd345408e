/-
What the main thread tells its beeper.

In every pass the main thread tells the beeper what it heard from the worker, be it news or not, and
when the worker has ended, it switches the beeper off:

    sound false, …, sound true, sound true, hush.

It comes to that however the worker ends, whether the sound timer still runs, and in whichever
order the threads take their steps.  Only a failure of the main thread's own frontend leads past
`hush`: the threads end with the failure, the call that failed is the last one, and a beeper that
was told to sound goes on with it (`deserted_keeps_sounding`).

Main result: `follow_silences`.
-/
import ChipEight.Proofs.Tone
import ChipEight.Proofs.TurnTaking

namespace ChipEight

variable {ω ε : Type}

/-- The worker asks nothing of the main thread's frontend. -/
theorem Handoff.keeps_log (host : Host ω ε) :
    (Handoff.host host.logged.toClock).Keeps fun v => v.2.2 where
  read := by
    rintro ⟨h, w, log⟩ _ _ ⟨⟩
    rfl
  sleep := by
    rintro delay ⟨h, w, log⟩ _ _ ⟨⟩
    rfl
  poll := by
    rintro keys ⟨h, w, log⟩ _ _ ⟨⟩
    rfl
  render := by
    rintro picture ⟨h, w, log⟩ _ _ ⟨⟩
    rfl
  setTone := by
    rintro on ⟨h, w, log⟩ _ _ ⟨⟩
    rfl

namespace Threads

variable {host : Host ω ε} {t t' : Threads ε} {w w' : ω} {log : List Call} {l : List ε}

/-! ### Calls of the main thread -/

/-- What the next step of the main thread asks of its frontend, if anything. -/
def call? (t : Threads ε) : Option Call :=
  match t.main with
  | .poll => some (.poll .released)
  | .present p => some (.render p)
  | .sound on => some (.setTone on)
  | .hush _ => some (.setTone false)
  | _ => none

/-- What is asked of the frontend in a turn. -/
def callIn? : Turn → Threads ε → Option Call
  | .main, t => t.call?
  | .worker, _ => none

theorem MainStep.log_eq {failure : Option ε} {v : ω × List Call}
    (h : MainStep host.logged.toFrontend t (w, log) failure t' v) :
    v.2 = log ++ t.call?.toList := by
  cases h with
  | askedToQuit hp e | polled hp e | pollFailed hp e | presented hp e | presentFailed hp e
  | sounded hp e | soundFailed hp e | hushed hp e | hushFailed hp e =>
    rw [call?, hp]
    exact (congrArg (fun x => x.2.2) e).symm
  | goesOn hp | isDone hp | requested hp | published hp | took hp | tookNothing hp | listened hp
  | paused hp | stopped hp | waited hp | raised hp | joined hp | returned hp =>
    rw [call?, hp]
    exact (List.append_nil log).symm

theorem WorkerStep.log_eq {v v' : ω × List Call}
    (h : WorkerStep host.logged.toClock t v t' v') : v'.2 = v.2 := by
  cases h with
  | advanced _ _ hs => exact hs.keeps (Handoff.keeps_log host)
  | finished | failed | left | rested => rfl

/-- **A turn puts its call into the log**, and nothing else. -/
theorem step_log (turn : Turn) (t : Threads ε) (v : ω × List Call) :
    (t.step host.logged turn v).2.2 = v.2 ++ (callIn? turn t).toList := by
  cases turn with
  | main => exact (mainStep_step ..).log_eq
  | worker =>
    rw [callIn?, Option.toList_none, List.append_nil]
    exact (workerStep_step ..).log_eq

/-! ### After a failure -/

/-- The main thread asks nothing of its frontend any more: it has left its passes for a failure, or
it is done. -/
def Mute (t : Threads ε) : Prop :=
  match t.main with
  | .stop (some _) | .join (some _) | .over _ => True
  | _ => False

theorem Mute.call? (h : t.Mute) : t.call? = none := by
  unfold Mute at h
  unfold Threads.call?
  split at h <;> simp_all

theorem MainStep.mute {frontend : Frontend ω ε} {failure : Option ε}
    (h : MainStep frontend t w failure t' w') (ht : failure.isSome ∨ t.Mute) : t'.Mute := by
  cases h with
  | pollFailed | presentFailed | soundFailed | raised | hushed | hushFailed => trivial
  | @stopped failure hp =>
    rcases failure with - | e
    · simp [Mute, hp] at ht
    · trivial
  | waited hp | returned hp => exact ht.resolve_left nofun
  | _ hp => simp [Mute, hp] at ht

theorem step_mute (turn : Turn) (ht : t.Mute) : (t.step host turn w).1.Mute := by
  cases turn with
  | main => exact (mainStep_step ..).mute (.inr ht)
  | worker =>
    rw [Mute, step, (workerStep_step ..).main_eq]
    exact ht

/-- **Nothing is asked of a frontend that has failed.** -/
theorem follow_log_of_mute (ht : t.Mute) (v : ω × List Call) (s : List Turn) :
    (follow host.logged s t v).2.2 = v.2 := by
  induction s generalizing t v with
  | nil => rfl
  | cons turn rest ih =>
    have hnone : callIn? turn t = none := by
      cases turn with
      | main => exact ht.call?
      | worker => rfl
    rw [follow, ih (step_mute turn ht), step_log, hnone]
    exact List.append_nil v.2

/-- A call that fails is the last. -/
theorem follow_log_of_failure {v : ω × List Call} {e : ε}
    (hf : t.failure? host.logged.toFrontend v = some e) (s : List Turn) :
    (follow host.logged (.main :: s) t v).2.2 = v.2 ++ t.call?.toList := by
  have hmute : (t.step host.logged .main v).1.Mute :=
    (mainStep_step host.logged.toFrontend t v).mute (.inl (by rw [hf]; rfl))
  rw [follow, follow_log_of_mute hmute, step_log]
  rfl

/-- A failure has none before it. -/
theorem Joins.eq_nil_of_failure {frontend : Frontend ω ε} {e : ε} (h : t.Joins l)
    (hf : t.failure? frontend w = some e) : l = [] := by
  unfold failure? at hf
  unfold Joins at h
  split at hf <;> simp_all

/-! ### The end -/

/-- If the main thread is done and its frontend has not failed, the beeper was switched off last. -/
def Silenced (l : List ε) (t : Threads ε) (log : List Call) : Prop :=
  t.outcome?.isSome → l = [] → log.getLast? = some (.setTone false)

theorem MainStep.silenced {failure : Option ε} {v : ω × List Call}
    (h : MainStep host.logged.toFrontend t (w, log) failure t' v) (hj : t.Joins l)
    (hs : t.Silenced l log) : t'.Silenced (l ++ failure.toList) v.2 := by
  intro hover hl
  have hlog := h.log_eq
  obtain ⟨rfl, hfailure⟩ := List.append_eq_nil_iff.mp hl
  cases h with
  | hushed hp =>
    rw [hlog, call?, hp]
    simp
  -- who leaves for a failure has had one
  | raised hp =>
    rw [Joins, hp] at hj
    cases hj
  | hushFailed => cases hfailure
  | waited | returned => exact hs hover rfl
  | _ => cases hover

/-- **What a turn keeps of the end.** -/
theorem step_silenced (turn : Turn) {v : ω × List Call} (hj : t.Joins l) (hs : t.Silenced l v.2) :
    (t.step host.logged turn v).1.Silenced (l ++ (failureIn? host.logged turn t v).toList)
      (t.step host.logged turn v).2.2 := by
  cases turn with
  | main => exact (mainStep_step ..).silenced hj hs
  | worker =>
    have hmain := (workerStep_step host.logged.toClock t v).main_eq
    rw [step_log, callIn?, failureIn?, Option.toList_none, Option.toList_none, List.append_nil,
      List.append_nil, Silenced, outcome?, step, hmain]
    exact hs

theorem follow_silenced (host : Host ω ε) (s : List Turn) (worker : Run ε) (w : ω) :
    (follow host.logged s (start worker) (w, [])).1.Silenced
      (failures host.logged s (start worker) (w, []))
      (follow host.logged s (start worker) (w, [])).2.2 := by
  have hstart : (start worker).Joins ([] : List ε) ∧ (start worker).Silenced ([] : List ε) [] :=
    ⟨rfl, nofun⟩
  refine (follow_of_step (failureIn? host.logged)
    (P := fun l t v => t.Joins l ∧ t.Silenced l v.2) ?_ (w := (w, [])) hstart s).2
  intro l t v turn ⟨hj, hs⟩
  exact ⟨step_joins turn hj, step_silenced turn hj hs⟩

/-- **The main thread leaves its beeper silent**, unless its own frontend fails.  The worker may
quit, come to its limit, halt or fail, and the steps of the two may come in any order.

If the frontend does not fail, the threads end as the worker did, and the last call of all switches
the beeper off.  If a call fails, the threads end with that failure, and that call is the last: what
the beeper was told before, it was told for good. -/
theorem follow_silences {worker : Run ε} {s : List Turn} {v : ω × List Call} {o : Outcome ε}
    (hrun : follow host.logged s (start worker) (w, []) = (t, v)) (hover : t.outcome? = some o) :
    (failures host.logged s (start worker) (w, []) = [] →
      t.worker.outcome? = some o ∧ v.2.getLast? = some (.setTone false)) ∧
    ∀ s₁ s₂ t₁ v₁ e, s = s₁ ++ .main :: s₂ →
      follow host.logged s₁ (start worker) (w, []) = (t₁, v₁) →
      t₁.failure? host.logged.toFrontend v₁ = some e →
      o = .error e ∧ v.2 = v₁.2 ++ t₁.call?.toList := by
  have hjoins := follow_joins host.logged s worker (w, [])
  have hsettled := follow_settled host.logged (settled_start worker) s (w, [])
  have hsilenced := follow_silenced host s worker w
  rw [hrun] at hjoins hsettled hsilenced
  obtain ⟨-, o', hworker, ho⟩ := hjoins.worker_over hsettled hover
  refine ⟨fun hnone => ?_, ?_⟩
  · rw [hnone] at ho
    obtain rfl : o = o' := ho
    exact ⟨hworker, hsilenced (by rw [hover]; rfl) hnone⟩
  · rintro s₁ s₂ t₁ v₁ e rfl hrun₁ hf
    have hjoins₁ := follow_joins host.logged s₁ worker (w, [])
    rw [hrun₁] at hjoins₁
    have hfailures : failures host.logged (s₁ ++ .main :: s₂) (start worker) (w, []) =
        e :: failures host.logged s₂ (t₁.step host.logged .main v₁).1
          (t₁.step host.logged .main v₁).2 := by
      have hnone := hjoins₁.eq_nil_of_failure hf
      rw [failures] at hnone
      rw [failures, noted_append, hrun₁, hnone, noted, failureIn?, hf]
      rfl
    rw [hfailures] at ho
    refine ⟨ho, ?_⟩
    rw [← follow_log_of_failure hf s₂, ← congrArg (fun x => x.2.2) hrun, follow_append, hrun₁]

/-- A worker whose program sets the sound timer and goes round in place. -/
def buzzing : Run Mishap :=
  .fresh {} (Machine.holding [(0x200, 0x60), (0x201, 0xFF), (0x202, 0xF0), (0x203, 0x18),
    (0x204, 0x12), (0x205, 0x04)]) none

/-- A bench whose user quits at the fourth poll. -/
def departing : Bench where
  frontend := { script := { quitAfterPolls := some 3 } }

/-- A bench whose window is lost at the fourth poll. -/
def deserted : Bench where
  frontend := { script := { failAt := some 3 } }

/-- The worker makes the beeper sound, the user quits, and each thread comes to its end. -/
def leaving : List Turn :=
  .replicate 40 .worker ++ .replicate 30 .main ++ .replicate 20 .worker ++ .replicate 20 .main

/-- What becomes of the worker and the user who quits. -/
def left : Threads Mishap × Bench × List Call :=
  follow Bench.host.logged leaving (start buzzing) (departing, [])

theorem buzzing_is_silenced :
    left.1.outcome?.isSome ∧
      failures Bench.host.logged leaving (start buzzing) (departing, []) = [] ∧
      told left.2.2 = [true, true, true, true, false] ∧
      left.2.2.getLast? = some (.setTone false) := by
  have hleft : left.1.outcome?.isSome ∧
      failures Bench.host.logged leaving (start buzzing) (departing, []) = [] ∧
      told left.2.2 = [true, true, true, true, false] := by decide +kernel
  obtain ⟨hover, hnone, htold⟩ := hleft
  obtain ⟨o, ho⟩ := Option.isSome_iff_exists.mp hover
  have hpair (p : Threads Mishap × Bench × List Call) : p = (p.1, p.2) := rfl
  have hsilent := (follow_silences (s := leaving) (hpair left) ho).1 hnone
  exact ⟨hover, hnone, htold, hsilent.2⟩

/-- When the window is lost while the beeper sounds, it is never switched off. -/
theorem deserted_keeps_sounding :
    (Lockstep.after Bench.host.logged 100 (.start buzzing none) (deserted, [])).1.outcome?.map
        failureOf = some (some .windowLost) ∧
      lastTold (Lockstep.after Bench.host.logged 100 (.start buzzing none) (deserted, [])).2.2 =
        true := by
  decide +kernel

end Threads

end ChipEight
