/-
Runs on an ideal clock.

On an ideal clock looking takes no time, and a sleep lasts as long as was asked for:

    read:   t ↦ t,      sleep d:   t ↦ t + d     for 0 < d ≤ second.

The run sleeps until the earliest of the three due times, so it never sleeps past that of the
timers, and from one look at the clock to the next no more than a period of the timers passes:

    now ≤ clock ≤ nextTimer ≤ now + period.

Main result: `after_timed`, which says so for every phase of a run.
-/
import ChipEight.Host.Bench
import ChipEight.Proofs.Pace

namespace ChipEight

/-- The clock of the outside is ideal; `shows w t` says that it shows `t`. -/
structure Host.IdealClock {ω ε : Type} (host : Host ω ε) (shows : ω → Int → Prop) : Prop where
  read {w t t' w'} : shows w t → host.read w = (t', w') → t' = t ∧ shows w' t
  sleep {delay w t answer w'} : shows w t → 0 < delay → delay ≤ second →
    host.sleep delay w = (answer, w') → answer = .ok () ∧ shows w' (t + delay)
  poll {keys w t answer w'} : shows w t → host.poll keys w = (answer, w') → shows w' t
  render {picture w t answer w'} : shows w t → host.render picture w = (answer, w') → shows w' t
  setTone {on w t answer w'} : shows w t → host.setTone on w = (answer, w') → shows w' t

/-- A simulated clock that is ideal and shows `t`. -/
structure SimulatedClock.Ideal (c : SimulatedClock) (t : Int) : Prop where
  time : c.time = t
  readCost : c.readCost = 0
  oversleep : c.oversleep = []

namespace SimulatedClock

variable {c : SimulatedClock} {t : Int}

theorem Ideal.read (h : c.Ideal t) : c.read.1 = t ∧ c.read.2.Ideal t := by
  obtain ⟨rfl, hcost, hover⟩ := h
  refine ⟨rfl, ?_, hcost, hover⟩
  show c.time + c.readCost = c.time
  rw [hcost, Int.add_zero]

/-- A sleep of a second or less is short enough to be asked for exactly. -/
theorem Ideal.sleep (h : c.Ideal t) {delay : Int} (hd : delay ≤ second) :
    (c.sleep delay).1 = .ok () ∧ (c.sleep delay).2.Ideal (t + delay) := by
  obtain ⟨rfl, hcost, hover⟩ := h
  have hexact : delay ≤ longestExact := Int.le_trans hd (by decide)
  have hexcess : c.excess = 0 := by simp [excess, hover]
  rw [SimulatedClock.sleep, if_pos hexact]
  refine ⟨rfl, ?_, hcost, hover⟩
  show c.time + delay + c.excess = c.time + delay
  rw [hexcess, Int.add_zero]

end SimulatedClock

theorem Bench.idealClock : host.IdealClock fun b t => b.clock.Ideal t where
  read := by
    rintro b t _ _ h ⟨⟩
    exact h.read
  sleep := by
    rintro delay b t _ _ h _ hd ⟨⟩
    obtain ⟨hok, hideal⟩ := h.sleep hd
    refine ⟨?_, hideal⟩
    show (b.clock.sleep delay).1.mapError Mishap.noSleep = .ok ()
    rw [hok]
    rfl
  poll := by
    rintro keys b t _ _ h ⟨⟩
    exact h
  render := by
    rintro picture b t _ _ h ⟨⟩
    exact h
  setTone := by
    rintro on b t _ _ h ⟨⟩
    exact h

/-! ### How far the clock goes in a pass -/

namespace Run

variable {ω ε : Type} {host : Host ω ε} {shows : ω → Int → Prop} {period : Int}
variable {r next : Run ε} {w w' : ω}

/-- The clock shows `t`, which is not past the next due time of the timers, and that is at most a
period after this pass. -/
structure Punctual (shows : ω → Int → Prop) (period t : Int) (r : Run ε) (w : ω) : Prop where
  clock : shows w t
  passed : r.now ≤ t
  due : t ≤ r.nextTimer
  ahead : r.nextTimer ≤ r.now + period

/-- Where the clock stands in every phase. -/
def Timed (shows : ω → Int → Prop) (period : Int) (r : Run ε) (w : ω) : Prop :=
  match r.phase with
  | .start => ∃ t, shows w t
  | .look => ∃ t, r.Punctual shows period t w
  | .poll | .execute | .sound | .draw | .measure => r.Punctual shows period r.now w
  | .sleep delay => 0 < delay ∧ r.now + delay ≤ r.nextTimer ∧ r.Punctual shows period r.now w
  | .silence _ | .over _ => True

theorem Told.shows_of_shows (hi : host.IdealClock shows) {tone on : Bool}
    {answer : Except ε Unit} {t : Int} (h : Told host tone on w answer w') (hw : shows w t) :
    shows w' t := by
  cases h with
  | same _ => exact hw
  | news _ e => exact hi.setTone hw e

/-- **A step on an ideal clock.** -/
theorem Step.timed (hi : host.IdealClock shows) (hp : 0 < period ∧ period ≤ second)
    (hpace : r.pace.timer = period) (h : Step host r w next w') (ht : r.Timed shows period w) :
    next.Timed shows period w' := by
  cases h with
  | @begin now _ hph e =>
    rw [Timed, hph] at ht
    obtain ⟨t, hw⟩ := ht
    obtain ⟨rfl, hs⟩ := hi.read hw e
    exact ⟨now, hs, Int.le_refl now, Int.le_refl now, show now ≤ now + period by omega⟩
  | @look now _ hph _ e =>
    rw [Timed, hph] at ht
    obtain ⟨t, hclock, hpassed, hdue, hahead⟩ := ht
    obtain ⟨rfl, hs⟩ := hi.read hclock e
    exact ⟨hs, Int.le_refl now, hdue, show r.nextTimer ≤ now + period by omega⟩
  | noTick hph _ | ticked hph _ | noFrame hph _ | clean hph _ _ =>
    rw [Timed, hph] at ht
    exact ⟨ht.clock, ht.passed, ht.due, ht.ahead⟩
  | polled hph _ e =>
    rw [Timed, hph] at ht
    exact ⟨hi.poll ht.clock e, ht.passed, ht.due, ht.ahead⟩
  | drawn hph _ _ e =>
    rw [Timed, hph] at ht
    exact ⟨hi.render ht.clock e, ht.passed, ht.due, ht.ahead⟩
  | checked hph _ htold =>
    rw [Timed, hph] at ht
    obtain ⟨hclock, hpassed, hdue, hahead⟩ := ht
    have hclock' := htold.shows_of_shows hi hclock
    by_cases hlt : r.now < r.nextTimer
    · rw [if_pos hlt]
      exact ⟨hclock', hpassed, hdue, hahead⟩
    · -- the timers are due right now, so they are due again a period from now
      have heq : r.nextTimer = r.now := by omega
      rw [if_neg hlt, heq, nextDue_self _ _ (by omega), hpace]
      exact ⟨hclock', hpassed, show r.now ≤ r.now + period by omega, Int.le_refl _⟩
  | pause hph e hlt =>
    rw [Timed, hph] at ht
    obtain ⟨hclock, hpassed, hdue, hahead⟩ := ht
    obtain ⟨rfl, hs⟩ := hi.read hclock e
    -- the run wakes up for the earliest of the due times, so not after that of the timers
    have hwake : r.nextWake ≤ r.nextTimer := by
      unfold nextWake
      omega
    exact ⟨by omega, show r.now + (r.nextWake - r.now) ≤ r.nextTimer by omega, hs, hpassed, hdue,
      hahead⟩
  | noPause hph e _ =>
    rw [Timed, hph] at ht
    obtain ⟨hclock, hpassed, hdue, hahead⟩ := ht
    obtain ⟨rfl, hs⟩ := hi.read hclock e
    exact ⟨_, hs, hpassed, hdue, hahead⟩
  | @slept delay _ hph e =>
    rw [Timed, hph] at ht
    obtain ⟨hpos, hwake, hclock, hpassed, hdue, hahead⟩ := ht
    obtain ⟨-, hs⟩ := hi.sleep hclock hpos (by omega) e
    exact ⟨_, hs, show r.now ≤ r.now + delay by omega, hwake, hahead⟩
  | exhausted | quit | pollFailed | halted | toneFailed | drawFailed | sleepFailed => trivial
  | silenced | silenceFailed => trivial
  | ended hph =>
    rw [Timed, hph]
    trivial

/-- **How far the clock goes in a pass of a run.** -/
theorem after_timed (hi : host.IdealClock shows) (hp : 0 < period ∧ period ≤ second)
    (hpace : r.pace.timer = period) (ht : r.Timed shows period w) (n : Nat) :
    (r.after host n w).1.pace.timer = period ∧
      (r.after host n w).1.Timed shows period (r.after host n w).2 := by
  refine after_of_step (P := fun r w => r.pace.timer = period ∧ r.Timed shows period w)
    (fun h hr => ?_) ⟨hpace, ht⟩ n
  exact ⟨by rw [h.pace_eq, hr.1], h.timed hi hp hr.1 hr.2⟩

end Run

end ChipEight
