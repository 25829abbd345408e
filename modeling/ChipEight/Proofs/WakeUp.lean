/-
When a run wakes up.

A pass ends with a wait.  The run reads the clock once more and sleeps from that reading to the
earliest of its three due times, or goes on at once if that has passed:

    delay = min nextTick (min nextFrame nextTimer) - reading.

Nothing is assumed of the clock but that its readings never decrease.  To look at it may take any
time, and a sleep may take longer than was asked for, or less.  What was due in a pass is due again
a period later or sooner, and what was not due was put off in an earlier pass, so no due time is
ever more than its period ahead of the pass (`Step.ahead`):

    nextTick ≤ now + tick,    nextFrame ≤ now + frame,    nextTimer ≤ now + timer.

So no sleep that a run asks for is longer than the shortest of the three periods, and the timers
are not slept through, however seldom there is an instruction to perform or a picture to draw.

Main result: `Begins.wakes_in_time`.
-/
import ChipEight.Proofs.Pacing
import ChipEight.Proofs.SteadyClock

namespace ChipEight

/-! ### Accepted configurations -/

namespace Config

/-- A configuration is accepted if it is made from some settings without complaint. -/
def Accepted (c : Config) : Prop :=
  ∃ clockRate timerRate frameRate scale tone threaded dialect,
    ofSettings clockRate timerRate frameRate scale tone threaded dialect = .ok c

theorem exists_of_bind {α β ε : Type} {x : Except ε α} {f : α → Except ε β} {b : β}
    (h : x >>= f = .ok b) : ∃ a, x = .ok a ∧ f a = .ok b := by
  cases x with
  | error e => cases h
  | ok a => exact ⟨a, rfl, h⟩

theorem pos_of_positive {name : String} {given : Setting} {n : Int}
    (h : positive name given = .ok n) : 1 ≤ n := by
  unfold positive at h
  split at h
  · split at h
    · cases h
    · obtain rfl := Except.ok.inj h
      omega
  · cases h

/-- All rates and sizes of an accepted configuration are positive. -/
theorem Accepted.positive {c : Config} (h : c.Accepted) :
    1 ≤ c.clockRate ∧ 1 ≤ c.timerRate ∧ 1 ≤ c.frameRate ∧ 1 ≤ c.scale ∧ 1 ≤ c.tone := by
  obtain ⟨_, _, _, _, _, _, _, h⟩ := h
  obtain ⟨_, hclock, h⟩ := exists_of_bind h
  obtain ⟨_, htimer, h⟩ := exists_of_bind h
  obtain ⟨_, hframe, h⟩ := exists_of_bind h
  obtain ⟨_, hscale, h⟩ := exists_of_bind h
  obtain ⟨_, htone, h⟩ := exists_of_bind h
  obtain rfl := Except.ok.inj h
  exact ⟨pos_of_positive hclock, pos_of_positive htimer, pos_of_positive hframe,
    pos_of_positive hscale, pos_of_positive htone⟩

end Config

namespace Run

variable {ω ε : Type} {host : Host ω ε} {r next : Run ε} {w w' : ω} {l : List Int}

theorem Begins.proper {c : Config} {rate : Int} (hr : r.Begins c) (hc : c.Accepted)
    (hrate : 1 ≤ rate) (hperiod : r.machine.timers.period = second.fdiv rate) :
    r.pace.Proper := by
  obtain ⟨hclock, -, hframe, -⟩ := hc.positive
  rw [hr.pace, Pace.of, hperiod]
  exact ⟨period_nonneg hclock, period_nonneg hframe, period_nonneg hrate⟩

/-! ### Readings of the clock -/

/-- What the next step of a run reads off the clock, if it looks at it. -/
def reading? (host : Host ω ε) (r : Run ε) (w : ω) : Option Int :=
  match r.phase with
  | .start | .measure => some (host.read w).1
  | .look => if r.exhausted then none else some (host.read w).1
  | _ => none

/-- What the first steps of a run read off the clock, the earliest reading first. -/
def readings (host : Host ω ε) (r : Run ε) (w : ω) : Nat → List Int
  | 0 => []
  | n + 1 => r.readings host w n ++ ((r.after host n w).1.reading? host (r.after host n w).2).toList

/-- The earlier readings are not affected by the later ones. -/
theorem readings_sublist (n k : Nat) :
    (r.readings host w n).Sublist (r.readings host w (n + k)) := by
  induction k with
  | zero => exact .refl _
  | succ k ih => exact ih.trans (List.sublist_append_left ..)

/-- What is read next is no less than what was read before, if the readings do not go back. -/
theorem le_of_reading {earlier t : Int}
    (hclock : (l ++ (r.reading? host w).toList).Pairwise (· ≤ ·))
    (hread : r.reading? host w = some t) (hmem : earlier ∈ l) : earlier ≤ t := by
  rw [hread] at hclock
  obtain ⟨-, -, hle⟩ := List.pairwise_append.mp hclock
  exact hle earlier hmem t (List.mem_singleton_self t)

/-- The time of a pass is that of the pass before, or the new pass has just read it. -/
theorem Step.now_eq_or (h : Step host r w next w') :
    next.now = r.now ∧ r.phase ≠ .start ∨ r.reading? host w = some next.now := by
  cases h with
  | begin hp e => exact .inr (by rw [reading?, hp, e])
  | look hp hx e => exact .inr (by simp [reading?, hp, hx, e])
  | ended hp => exact .inl ⟨rfl, by rw [hp]; nofun⟩
  | _ => exact .inl ⟨rfl, by simp_all⟩

/-! ### Due times -/

/-- **No step puts off a due time by more than its period**, as long as the time of the passes does
not go back. -/
theorem Step.ahead (h : Step host r w next w') (hph : r.phase ≠ .start) (hprompt : r.Prompt)
    (hnow : r.now ≤ next.now) (ha : r.Ahead) : next.Ahead := by
  cases h with
  | begin hp => exact absurd hp hph
  | look => exact ha.look hnow
  | ticked hp => exact ⟨nextDue_le (hprompt hp), ha.frame, ha.timer⟩
  | checked => exact ⟨ha.tick, ha.frame, ha.nextTimer_le⟩
  | clean _ hdue | drawn _ hdue => exact ⟨ha.tick, nextDue_le hdue, ha.timer⟩
  | _ => exact ⟨ha.tick, ha.frame, ha.timer⟩

/-- Where a run stands that has read `l` off the clock. -/
structure Timely (l : List Int) (r : Run ε) : Prop where
  proper : r.pace.Proper
  prompt : r.Prompt
  goesOn : r.phase ≠ .start → r.now ∈ l ∧ r.Ahead

/-- A step stays in time if what it reads is no less than what was read before. -/
theorem Step.timely (h : Step host r w next w')
    (hclock : (l ++ (r.reading? host w).toList).Pairwise (· ≤ ·)) (ht : r.Timely l) :
    next.Timely (l ++ (r.reading? host w).toList) := by
  refine ⟨h.pace_eq ▸ ht.proper, h.prompt, fun _ => ?_⟩
  have hmem : next.now ∈ l ++ (r.reading? host w).toList := by
    rcases h.now_eq_or with ⟨hsame, hph⟩ | hread
    · rw [hsame]
      exact List.mem_append_left _ (ht.goesOn hph).1
    · simp [hread]
  refine ⟨hmem, ?_⟩
  by_cases hph : r.phase = .start
  · -- everything is due at once, whatever the due times were
    cases h with
    | begin => exact ahead_begin ht.proper _
    | _ => simp_all
  · obtain ⟨hold, ha⟩ := ht.goesOn hph
    have hnow : r.now ≤ next.now := by
      rcases h.now_eq_or with ⟨hsame, -⟩ | hread
      · exact Int.le_of_eq hsame.symm
      · exact le_of_reading hclock hread hold
    exact h.ahead hph ht.prompt hnow ha

/-- **A run stays in time as long as the clock does not go back.** -/
theorem after_timely (hs : r.phase = .start) (hp : r.pace.Proper) (n : Nat)
    (hclock : (r.readings host w n).Pairwise (· ≤ ·)) :
    (r.after host n w).1.Timely (r.readings host w n) := by
  induction n with
  | zero =>
    refine ⟨hp, ?_, fun hph => absurd hs hph⟩
    intro hx
    rw [after, hs] at hx
    cases hx
  | succ n ih =>
    -- if no reading goes back, none of the earlier ones does
    have hbefore := ih (hclock.sublist (readings_sublist n 1))
    rw [after_succ]
    exact (advance_step ..).timely hclock hbefore

/-! ### Waits -/

/-- How long a sleep the next step of a run asks for, if it asks for one. -/
def delay? (r : Run ε) : Option Int :=
  match r.phase with
  | .sleep delay => some delay
  | _ => none

theorem delay?_eq_some_iff {delay : Int} : r.delay? = some delay ↔ r.phase = .sleep delay := by
  unfold delay?
  rcases hp : r.phase with - | - | - | - | - | - | - | delay | o | o <;> simp

/-- The wait of a pass: a sleep that is longer than nothing and no longer than any of the periods,
from the reading of the wait to the earliest due time. -/
structure Waits (host : Host ω ε) (r : Run ε) (w : ω) (delay : Int) : Prop where
  measured : r.phase = .measure
  pos : 0 < delay
  short : delay ≤ min r.pace.tick (min r.pace.frame r.pace.timer)
  exact : delay = r.nextWake - (host.read w).1

/-- From a reading as late as the pass it is no longer until something is due than the shortest of
the periods. -/
theorem Ahead.wait_le (h : r.Ahead) {t : Int} (hnow : r.now ≤ t) :
    r.nextWake - t ≤ min r.pace.tick (min r.pace.frame r.pace.timer) := by
  obtain ⟨htick, hframe, htimer⟩ := h
  unfold nextWake
  omega

/-- A step that asks for a sleep is a wait. -/
theorem Step.waits (h : Step host r w next w')
    (hclock : (l ++ (r.reading? host w).toList).Pairwise (· ≤ ·)) (ht : r.Timely l) {delay : Int}
    (hs : next.phase = .sleep delay) : r.Waits host w delay := by
  cases h with
  | @pause now _ hm e hlt =>
    obtain rfl := Phase.sleep.inj hs
    obtain ⟨hmem, hahead⟩ := ht.goesOn (by rw [hm]; nofun)
    -- the time of the pass is among the earlier readings, and that of the wait is the last
    have hread : r.reading? host w = some now := by rw [reading?, hm, e]
    have hnow : r.now ≤ now := le_of_reading hclock hread hmem
    exact ⟨hm, Int.sub_pos_of_lt hlt, hahead.wait_le hnow, by rw [e]⟩
  | ended hp => rw [hp] at hs; cases hs
  | _ => cases hs

/-- **A run wakes up in time.**  The machine, the frontend, what it costs to look at the clock and
how long the sleeps really last do not matter, as long as the readings do not go back.  When the
wait of a pass begins, every due time is at most its period ahead of the pass.  Whenever the run
asks for a sleep, it asks for what is left from the reading of the wait to the earliest due time,
and that is more than nothing and no more than the shortest of the three periods. -/
theorem Begins.wakes_in_time {c : Config} {rate : Int} (hr : r.Begins c) (hc : c.Accepted)
    (hrate : 1 ≤ rate) (hperiod : r.machine.timers.period = second.fdiv rate) (n : Nat)
    (hclock : (r.readings host w n).Pairwise (· ≤ ·)) :
    ((r.after host n w).1.phase = .measure →
      (r.after host n w).1.nextTick ≤ (r.after host n w).1.now + second.fdiv c.clockRate ∧
      (r.after host n w).1.nextFrame ≤ (r.after host n w).1.now + second.fdiv c.frameRate ∧
      (r.after host n w).1.nextTimer ≤ (r.after host n w).1.now + second.fdiv rate) ∧
    ∀ delay, (r.after host n w).1.delay? = some delay →
      0 < delay ∧
      delay ≤ min (second.fdiv c.clockRate) (min (second.fdiv c.frameRate) (second.fdiv rate)) ∧
      ∃ k, n = k + 1 ∧ (r.after host k w).1.phase = .measure ∧
        delay = (r.after host k w).1.nextWake - (host.read (r.after host k w).2).1 := by
  have hproper : r.pace.Proper := hr.proper hc hrate hperiod
  have hpace (k : Nat) : (r.after host k w).1.pace =
      ⟨second.fdiv c.clockRate, second.fdiv c.frameRate, second.fdiv rate⟩ := by
    rw [after_pace, hr.pace, Pace.of, hperiod]
  refine ⟨fun hm => ?_, fun delay hs => ?_⟩
  · have htimely := after_timely hr.phase hproper n hclock
    obtain ⟨-, htick, hframe, htimer⟩ := htimely.goesOn (by simp [hm])
    rw [hpace] at htick hframe htimer
    exact ⟨htick, hframe, htimer⟩
  · rw [delay?_eq_some_iff] at hs
    cases n with
    | zero =>
      rw [after, hr.phase] at hs
      cases hs
    | succ k =>
      have hbefore := after_timely hr.phase hproper k (hclock.sublist (readings_sublist k 1))
      rw [after_succ] at hs
      have hwait := (advance_step ..).waits hclock hbefore hs
      have hshort := hwait.short
      rw [hpace] at hshort
      exact ⟨hwait.pos, hshort, k, rfl, hwait.measured, hwait.exact⟩

/-- A bench with a clock that takes its time.  Its first sleep ends too early, its second too
late. -/
def restless : Bench := { clock := { readCost := 1000, oversleep := [(0, -5000), (1, 430000000)] } }

/-- After the long sleep the next one ends when the timers are due, before the next tick and the
next picture. -/
theorem drawing_wakes_for_timers :
    drawing.readings Bench.host restless 20 =
        [0, 1000, 2000, 16662666, 16663666, 446667666, 446668666] ∧
      (drawing.after Bench.host 20 restless).1.delay? = some 16665666 ∧
      0 < (16665666 : Int) ∧
      (16665666 : Int) ≤ min (second.fdiv 4) (min (second.fdiv 2) (second.fdiv 60)) := by
  have hbegins : drawing.Begins { clockRate := 4, frameRate := 2 } := begins_fresh ..
  have haccepted : Config.Accepted { clockRate := 4, frameRate := 2 } :=
    ⟨.number 4, .number 60, .number 2, .number 15, .number 440, false, {}, rfl⟩
  have hread : drawing.readings Bench.host restless 20 =
      [0, 1000, 2000, 16662666, 16663666, 446667666, 446668666] := by
    decide +kernel
  have hclock : (drawing.readings Bench.host restless 20).Pairwise (· ≤ ·) := by
    rw [hread]
    decide
  have hsleep : (drawing.after Bench.host 20 restless).1.delay? = some 16665666 := by
    decide +kernel
  have hrate : (1 : Int) ≤ 60 := by decide
  obtain ⟨-, hwait⟩ := hbegins.wakes_in_time haccepted hrate rfl 20 hclock
  obtain ⟨hpos, hshort, -⟩ := hwait _ hsleep
  exact ⟨hread, hsleep, hpos, hshort⟩

end Run

end ChipEight
