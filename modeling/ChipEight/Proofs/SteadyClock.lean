/-
Runs on a clock that does not go back.

Nothing is known of a steady clock but this: looking at it may take time, a sleep lasts as long as
was asked for or longer, and what the frontend does may take time as well.

    read:   t ↦ u   with a reading in between,      sleep d:   t ↦ u   with t + d ≤ u.

An activity is due again at most one period after it was served, so in every pass all three due
times are at most their periods ahead (`Ahead`).  The run sleeps until the earliest of them, or
goes on at once if that has passed, so whenever it looks at the clock something is due:

    nextWake ≤ now.

Main result: `Step.steady`, the invariant of single steps.  It holds up as long as the clock does
not go back between two steps (`Steady.later`), so another thread may take its steps there.
-/
import ChipEight.Host.Bench
import ChipEight.Proofs.Pace

namespace ChipEight

/-- The clock of the outside never goes back, and it does not wake a run too early; `shows w t`
says that it shows `t`. -/
structure Host.SteadyClock {ω ε : Type} (host : Host ω ε) (shows : ω → Int → Prop) : Prop where
  read {w t t' w'} : shows w t → host.read w = (t', w') → t ≤ t' ∧ ∃ u, t' ≤ u ∧ shows w' u
  sleep {delay w t answer w'} : shows w t → 0 < delay → delay ≤ second →
    host.sleep delay w = (answer, w') →
    ∃ u, t ≤ u ∧ (answer = .ok () → t + delay ≤ u) ∧ shows w' u
  poll {keys w t answer w'} : shows w t → host.poll keys w = (answer, w') →
    ∃ u, t ≤ u ∧ shows w' u
  render {picture w t answer w'} : shows w t → host.render picture w = (answer, w') →
    ∃ u, t ≤ u ∧ shows w' u
  setTone {on w t answer w'} : shows w t → host.setTone on w = (answer, w') →
    ∃ u, t ≤ u ∧ shows w' u

/-- A simulated clock that does not go back and shows `t`. -/
structure SimulatedClock.Steady (c : SimulatedClock) (t : Int) : Prop where
  time : c.time = t
  readCost : 0 ≤ c.readCost
  oversleep : ∀ excess ∈ c.oversleep, 0 ≤ excess.2

namespace SimulatedClock

variable {c : SimulatedClock} {t : Int}

theorem Steady.excess (h : c.Steady t) : 0 ≤ c.excess := by
  unfold SimulatedClock.excess
  rcases e : c.oversleep.lookup c.sleeps with - | d
  · exact Int.le_refl 0
  · obtain ⟨before, after, hl, -⟩ := List.lookup_eq_some_iff.mp e
    exact h.oversleep (c.sleeps, d) (by simp [hl])

/-- A sleep of a second or less is short enough to be asked for exactly. -/
theorem Steady.sleep (h : c.Steady t) {delay : Int} (hd : delay ≤ second) :
    ∃ u, t + delay ≤ u ∧ (c.sleep delay).2.Steady u := by
  have hexcess := h.excess
  obtain ⟨rfl, hcost, hover⟩ := h
  have hexact : delay ≤ longestExact := Int.le_trans hd (by decide)
  rw [SimulatedClock.sleep, if_pos hexact]
  exact ⟨c.time + delay + c.excess, by omega, rfl, hcost, hover⟩

end SimulatedClock

theorem Bench.steadyClock : host.SteadyClock fun b t => b.clock.Steady t where
  read := by
    rintro b t _ _ ⟨rfl, hcost, hover⟩ ⟨⟩
    refine ⟨Int.le_refl _, b.clock.time + b.clock.readCost, ?_, rfl, hcost, hover⟩
    show b.clock.time ≤ b.clock.time + b.clock.readCost
    omega
  sleep := by
    rintro delay b t answer b' h hpos hd e
    obtain ⟨u, hle, hu⟩ := h.sleep hd
    obtain rfl : { b with clock := (b.clock.sleep delay).2 } = b' := congrArg Prod.snd e
    exact ⟨u, by omega, fun _ => hle, hu⟩
  poll := by
    rintro keys b t _ _ h ⟨⟩
    exact ⟨t, Int.le_refl t, h⟩
  render := by
    rintro picture b t _ _ h ⟨⟩
    exact ⟨t, Int.le_refl t, h⟩
  setTone := by
    rintro on b t _ _ h ⟨⟩
    exact ⟨t, Int.le_refl t, h⟩

/-- What is served at `now`, not before it is due, is due again after a period or less. -/
theorem nextDue_le {due period now : Int} (h : due ≤ now) :
    nextDue due period now ≤ now + period := by
  unfold nextDue
  split <;> omega

/-- No period is negative; what has the period zero is due all the time. -/
structure Pace.Proper (p : Pace) : Prop where
  tick : 0 ≤ p.tick
  frame : 0 ≤ p.frame
  timer : 0 ≤ p.timer

/-- Pictures are drawn and timers checked at periods from a nanosecond to a second; ticks may be
due all the time. -/
structure Pace.Brisk (p : Pace) : Prop where
  tick : 0 ≤ p.tick
  frame : 0 < p.frame ∧ p.frame ≤ second
  timer : 0 < p.timer ∧ p.timer ≤ second

theorem Pace.Brisk.proper {p : Pace} (h : p.Brisk) : p.Proper :=
  ⟨h.tick, Int.le_of_lt h.frame.1, Int.le_of_lt h.timer.1⟩

namespace Run

variable {ω ε : Type} {host : Host ω ε} {shows : ω → Int → Prop} {t u now : Int}
variable {r next : Run ε} {w w' : ω}

theorem Begins.brisk {c : Config} {rate : Int} (hr : r.Begins c) (htick : 1 ≤ c.clockRate)
    (hframe : 1 ≤ c.frameRate ∧ c.frameRate ≤ second) (htimer : 1 ≤ rate ∧ rate ≤ second)
    (hperiod : r.machine.timers.period = second.fdiv rate) : r.pace.Brisk := by
  rw [hr.pace]
  refine ⟨?_, period_bounds hframe, ?_⟩
  · exact period_nonneg htick
  · rw [Pace.of, hperiod]
    exact period_bounds htimer

/-! ### Where the clock and the due times stand -/

/-- All due times are at most their periods after this pass. -/
structure Ahead (r : Run ε) : Prop where
  tick : r.nextTick ≤ r.now + r.pace.tick
  frame : r.nextFrame ≤ r.now + r.pace.frame
  timer : r.nextTimer ≤ r.now + r.pace.timer

/-- At first everything is due at once. -/
theorem ahead_begin (hp : r.pace.Proper) (now : Int) : ({ r with
    phase := .look, cycles := 0, now := now, nextTick := now, nextFrame := now,
    nextTimer := now } : Run ε).Ahead where
  tick := Int.le_add_of_nonneg_right hp.tick
  frame := Int.le_add_of_nonneg_right hp.frame
  timer := Int.le_add_of_nonneg_right hp.timer

/-- A later pass finds the due times no farther ahead. -/
theorem Ahead.look (h : r.Ahead) (hnow : r.now ≤ now) :
    ({ r with phase := .poll, now := now } : Run ε).Ahead where
  tick := Int.le_trans h.tick (Int.add_le_add_right hnow _)
  frame := Int.le_trans h.frame (Int.add_le_add_right hnow _)
  timer := Int.le_trans h.timer (Int.add_le_add_right hnow _)

/-- The timers are put off only if they were due. -/
theorem Ahead.nextTimer_le (h : r.Ahead) :
    (if r.now < r.nextTimer then r.nextTimer else nextDue r.nextTimer r.pace.timer r.now) ≤
      r.now + r.pace.timer := by
  split
  · exact h.timer
  · rename_i hdue
    exact nextDue_le (Int.not_lt.mp hdue)

/-- What holds at the time `t` of the clock, in every phase. -/
def Standing (t : Int) (r : Run ε) : Prop :=
  match r.phase with
  | .start | .silence _ | .over _ => True
  | .look => r.now ≤ t ∧ r.Ahead ∧ r.nextWake ≤ t
  | .poll => r.now ≤ t ∧ r.Ahead ∧ r.nextWake ≤ r.now
  | .execute => r.now ≤ t ∧ r.Ahead ∧ r.nextTick ≤ r.now
  | .sound | .draw | .measure => r.now ≤ t ∧ r.Ahead
  | .sleep delay => r.now ≤ t ∧ r.Ahead ∧ 0 < delay ∧ delay ≤ second ∧ r.nextWake ≤ t + delay

theorem Standing.mono (h : r.Standing t) (hle : t ≤ u) : r.Standing u := by
  unfold Standing at h ⊢
  rcases hp : r.phase with - | - | - | - | - | - | - | delay | o | o <;> rw [hp] at h <;>
    dsimp only at h ⊢
  case look => exact ⟨Int.le_trans h.1 hle, h.2.1, Int.le_trans h.2.2 hle⟩
  case sleep =>
    obtain ⟨hnow, hahead, hpos, hshort, hwake⟩ := h
    exact ⟨Int.le_trans hnow hle, hahead, hpos, hshort, by omega⟩
  all_goals exact ⟨Int.le_trans h.1 hle, h.2⟩

/-- The clock shows a time at which the run stands where it should. -/
def Steady (shows : ω → Int → Prop) (r : Run ε) (w : ω) : Prop := ∃ t, shows w t ∧ r.Standing t

/-- Whatever happens between two steps of the run, it stays steady as long as the clock does not
go back. -/
theorem Steady.later (h : r.Steady shows w) (hclock : ∀ t, shows w t → ∃ u, t ≤ u ∧ shows w' u) :
    r.Steady shows w' := by
  obtain ⟨t, hw, ht⟩ := h
  obtain ⟨u, hle, hu⟩ := hclock t hw
  exact ⟨u, hu, ht.mono hle⟩

theorem steady_start (hp : r.phase = .start) (hw : shows w t) : r.Steady shows w := by
  refine ⟨t, hw, ?_⟩
  rw [Standing, hp]
  trivial

/-! ### Steps -/

theorem Told.shows_later (hc : host.SteadyClock shows) {tone on : Bool} {answer : Except ε Unit}
    (h : Told host tone on w answer w') (hw : shows w t) : ∃ u, t ≤ u ∧ shows w' u := by
  cases h with
  | same _ => exact ⟨t, Int.le_refl t, hw⟩
  | news _ e => exact hc.setTone hw e

/-- The run sleeps no longer than until the next picture is due. -/
theorem Ahead.delay_le (h : r.Ahead) (hp : r.pace.Brisk) (hnow : r.now ≤ now) :
    r.nextWake - now ≤ second := by
  have hframe := h.frame
  have hsecond := hp.frame.2
  unfold nextWake
  omega

/-- **A step on a steady clock.** -/
theorem Step.steady (hc : host.SteadyClock shows) (hp : r.pace.Brisk)
    (h : Step host r w next w') (hs : r.Steady shows w) : next.Steady shows w' := by
  obtain ⟨t, hw, ht⟩ := hs
  cases h with
  | @begin now _ _ e =>
    obtain ⟨-, u, hu, hw'⟩ := hc.read hw e
    have hwake : min now (min now now) ≤ u := by omega
    exact ⟨u, hw', hu, ahead_begin hp.proper now, hwake⟩
  | exhausted => exact ⟨t, hw, trivial⟩
  | @look now _ hph _ e =>
    rw [Standing, hph] at ht
    obtain ⟨hnow, hahead, hwake⟩ := ht
    obtain ⟨hread, u, hu, hw'⟩ := hc.read hw e
    exact ⟨u, hw', hu, hahead.look (Int.le_trans hnow hread), Int.le_trans hwake hread⟩
  | noTick hph _ =>
    rw [Standing, hph] at ht
    obtain ⟨hnow, hahead, -⟩ := ht
    exact ⟨t, hw, hnow, hahead.tick, hahead.frame, hahead.timer⟩
  | polled hph hdue e =>
    rw [Standing, hph] at ht
    obtain ⟨hnow, hahead, -⟩ := ht
    obtain ⟨u, hu, hw'⟩ := hc.poll hw e
    exact ⟨u, hw', Int.le_trans hnow hu, ⟨hahead.tick, hahead.frame, hahead.timer⟩, hdue⟩
  | quit _ _ e | pollFailed _ _ e =>
    obtain ⟨u, -, hw'⟩ := hc.poll hw e
    exact ⟨u, hw', trivial⟩
  | ticked hph _ =>
    rw [Standing, hph] at ht
    obtain ⟨hnow, hahead, hdue⟩ := ht
    exact ⟨t, hw, hnow, nextDue_le hdue, hahead.frame, hahead.timer⟩
  | halted => exact ⟨t, hw, trivial⟩
  | checked hph _ htold =>
    rw [Standing, hph] at ht
    obtain ⟨hnow, hahead⟩ := ht
    obtain ⟨u, hu, hw'⟩ := htold.shows_later hc hw
    exact ⟨u, hw', Int.le_trans hnow hu, hahead.tick, hahead.frame, hahead.nextTimer_le⟩
  | toneFailed _ _ htold =>
    obtain ⟨u, -, hw'⟩ := htold.shows_later hc hw
    exact ⟨u, hw', trivial⟩
  | noFrame hph _ =>
    rw [Standing, hph] at ht
    obtain ⟨hnow, hahead⟩ := ht
    exact ⟨t, hw, hnow, hahead.tick, hahead.frame, hahead.timer⟩
  | clean hph hdue _ =>
    rw [Standing, hph] at ht
    obtain ⟨hnow, hahead⟩ := ht
    exact ⟨t, hw, hnow, hahead.tick, nextDue_le hdue, hahead.timer⟩
  | drawn hph hdue _ e =>
    rw [Standing, hph] at ht
    obtain ⟨hnow, hahead⟩ := ht
    obtain ⟨u, hu, hw'⟩ := hc.render hw e
    exact ⟨u, hw', Int.le_trans hnow hu, hahead.tick, nextDue_le hdue, hahead.timer⟩
  | drawFailed _ _ _ e =>
    obtain ⟨u, -, hw'⟩ := hc.render hw e
    exact ⟨u, hw', trivial⟩
  | @pause now _ hph e hlt =>
    rw [Standing, hph] at ht
    obtain ⟨hnow, hahead⟩ := ht
    obtain ⟨hread, u, hu, hw'⟩ := hc.read hw e
    -- the sleep that is asked for starts after a look at the clock that may take time
    have hshort := hahead.delay_le hp (Int.le_trans hnow hread)
    have hwake : r.nextWake ≤ u + (r.nextWake - now) := by omega
    exact ⟨u, hw', Int.le_trans hnow (Int.le_trans hread hu),
      ⟨hahead.tick, hahead.frame, hahead.timer⟩, Int.sub_pos_of_lt hlt, hshort, hwake⟩
  | noPause hph e hle =>
    rw [Standing, hph] at ht
    obtain ⟨hnow, hahead⟩ := ht
    obtain ⟨hread, u, hu, hw'⟩ := hc.read hw e
    exact ⟨u, hw', Int.le_trans hnow (Int.le_trans hread hu),
      ⟨hahead.tick, hahead.frame, hahead.timer⟩, Int.le_trans hle hu⟩
  | slept hph e =>
    rw [Standing, hph] at ht
    obtain ⟨hnow, hahead, hpos, hshort, hwake⟩ := ht
    obtain ⟨u, hle, hu, hw'⟩ := hc.sleep hw hpos hshort e
    exact ⟨u, hw', Int.le_trans hnow hle, ⟨hahead.tick, hahead.frame, hahead.timer⟩,
      Int.le_trans hwake (hu rfl)⟩
  | sleepFailed hph e =>
    rw [Standing, hph] at ht
    obtain ⟨-, -, hpos, hshort, -⟩ := ht
    obtain ⟨u, -, -, hw'⟩ := hc.sleep hw hpos hshort e
    exact ⟨u, hw', trivial⟩
  | silenced _ htold | silenceFailed _ htold =>
    obtain ⟨u, -, hw'⟩ := htold.shows_later hc hw
    exact ⟨u, hw', trivial⟩
  | ended hph =>
    refine ⟨t, hw, ?_⟩
    rw [Standing, hph]
    trivial

end Run

end ChipEight
