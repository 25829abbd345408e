/-
The schedule of a run on an ideal clock.

Ticks, pictures and checks of the timers are due at three grids of times that begin at the time
`s` the run starts at, one for each period `p`:

    s,  s + p,  s + 2 * p,  …

On an ideal clock the run wakes up at every time of the three grids, once, and serves what is due:
each due time is always the first of its grid that was not served yet (`FirstFrom`), and the run
sleeps until the earliest of them.

`Exact` is the invariant of the clock and the due times, `Covers` says which passes were made so
far, and `Polled` which polls.  Main result: `Begins.keeps_schedule`.
-/
import ChipEight.Proofs.History
import ChipEight.Proofs.IdealClock

namespace ChipEight

/-! ### Grids of times -/

/-- One of the times `s`, `s + p`, `s + 2 * p`, … -/
def OnGrid (s p x : Int) : Prop := ∃ k : Nat, x = s + k * p

/-- The first time of a grid that is not before `t`. -/
structure FirstFrom (s p t due : Int) : Prop where
  onGrid : OnGrid s p due
  le : t ≤ due
  lt : due < t + p

namespace FirstFrom

variable {s p t due now x : Int}

theorem start (hp : 0 < p) : FirstFrom s p s s := ⟨⟨0, by omega⟩, Int.le_refl s, by omega⟩

/-- No time of the grid lies between. -/
theorem le_of_onGrid (h : FirstFrom s p t due) (hx : OnGrid s p x) (ht : t ≤ x) : due ≤ x := by
  obtain ⟨⟨k, rfl⟩, hle, hlt⟩ := h
  obtain ⟨j, rfl⟩ := hx
  have hp : 0 < p := by omega
  -- the grid time before `due` is before `t`
  have hkj : (k : Int) * p < (j + 1) * p := by
    rw [Int.add_mul, Int.one_mul]
    omega
  have hk : (k : Int) ≤ j :=
    Int.lt_add_one_iff.mp (Int.lt_of_mul_lt_mul_right hkj (Int.le_of_lt hp))
  have hmul : (k : Int) * p ≤ j * p := Int.mul_le_mul_of_nonneg_right hk (Int.le_of_lt hp)
  omega

/-- What is due now is due on the grid. -/
theorem le_iff (h : FirstFrom s p now due) : due ≤ now ↔ OnGrid s p now := by
  constructor
  · intro hdue
    obtain rfl := Int.le_antisymm hdue h.le
    exact h.onGrid
  · intro hnow
    exact h.le_of_onGrid hnow (Int.le_refl now)

/-- What is due is served, and the next time of the grid comes. -/
theorem serve (hp : 0 < p) (h : FirstFrom s p now due) (hdue : due ≤ now) :
    FirstFrom s p (now + 1) (nextDue due p now) := by
  obtain rfl : due = now := Int.le_antisymm hdue h.le
  obtain ⟨k, hk⟩ := h.onGrid
  rw [nextDue_self due p hp]
  exact ⟨⟨k + 1, by rw [hk, Int.natCast_add, Int.add_mul]; omega⟩, by omega, by omega⟩

/-- Up to its due time there is nothing to serve. -/
theorem mono (h : FirstFrom s p t due) {t' : Int} (ht : t ≤ t') (hle : t' ≤ due) :
    FirstFrom s p t' due :=
  ⟨h.onGrid, hle, by have := h.lt; omega⟩

end FirstFrom

/-- The times at which something is due. -/
def Pace.Scheduled (s : Int) (p : Pace) (x : Int) : Prop :=
  OnGrid s p.tick x ∨ OnGrid s p.frame x ∨ OnGrid s p.timer x

/-- All three periods are at least a nanosecond and at most a second. -/
structure Pace.Moderate (p : Pace) : Prop where
  tick : 0 < p.tick ∧ p.tick ≤ second
  frame : 0 < p.frame ∧ p.frame ≤ second
  timer : 0 < p.timer ∧ p.timer ≤ second

/-- The list has the scheduled times before `t`, in increasing order. -/
structure Pace.Covers (s : Int) (p : Pace) (l : List Int) (t : Int) : Prop where
  increasing : l.Pairwise (· < ·)
  mem_iff : ∀ x, x ∈ l ↔ p.Scheduled s x ∧ x < t

namespace Pace.Covers

variable {s t : Int} {p : Pace} {l : List Int}

theorem snoc (h : p.Covers s l t) (ht : p.Scheduled s t) : p.Covers s (l ++ [t]) (t + 1) where
  increasing := by
    refine List.pairwise_append.mpr ⟨h.increasing, List.pairwise_singleton .., ?_⟩
    intro x hx y hy
    rw [List.mem_singleton.mp hy]
    exact ((h.mem_iff x).mp hx).2
  mem_iff := by
    intro x
    rw [List.mem_append, h.mem_iff, List.mem_singleton]
    constructor
    · rintro (⟨hx, hlt⟩ | rfl)
      · exact ⟨hx, by omega⟩
      · exact ⟨ht, by omega⟩
    · rintro ⟨hx, hlt⟩
      rcases Int.lt_or_eq_of_le (Int.lt_add_one_iff.mp hlt) with h' | h'
      · exact .inl ⟨hx, h'⟩
      · exact .inr h'

/-- As long as nothing is scheduled, nothing is missed. -/
theorem mono (h : p.Covers s l t) {t' : Int} (ht : t ≤ t')
    (hnone : ∀ x, p.Scheduled s x → t ≤ x → t' ≤ x) : p.Covers s l t' where
  increasing := h.increasing
  mem_iff := by
    intro x
    rw [h.mem_iff]
    refine and_congr_right fun hx => ⟨fun hlt => by omega, fun hlt => ?_⟩
    refine Int.not_le.mp fun hle => ?_
    have := hnone x hx hle
    omega

end Pace.Covers

theorem OnGrid.le {s p x : Int} (hp : 0 < p) (h : OnGrid s p x) : s ≤ x := by
  obtain ⟨k, rfl⟩ := h
  have := Int.mul_nonneg (Int.natCast_nonneg k) (Int.le_of_lt hp)
  omega

theorem Pace.Scheduled.le {s x : Int} {p : Pace} (hp : p.Moderate) (h : p.Scheduled s x) :
    s ≤ x := by
  rcases h with h | h | h
  · exact h.le hp.tick.1
  · exact h.le hp.frame.1
  · exact h.le hp.timer.1

/-- Before the run starts nothing is scheduled. -/
theorem Pace.Covers.nil {s : Int} {p : Pace} (hp : p.Moderate) : p.Covers s [] s where
  increasing := .nil
  mem_iff := by
    intro x
    refine iff_of_false (List.not_mem_nil) ?_
    rintro ⟨hx, hlt⟩
    have := hx.le hp
    omega

namespace Run

variable {ω ε : Type} {host : Host ω ε} {shows : ω → Int → Prop} {s : Int}
variable {r next : Run ε} {w w' : ω} {l : List Int}

/-! ### The clock and the due times -/

/-- The due times of ticks, pictures and timers are the first of their grids from three times
on. -/
structure Dues (s a b c : Int) (r : Run ε) : Prop where
  tick : FirstFrom s r.pace.tick a r.nextTick
  frame : FirstFrom s r.pace.frame b r.nextFrame
  timer : FirstFrom s r.pace.timer c r.nextTimer

namespace Dues

variable {t x : Int}

theorem le_nextWake (h : r.Dues s t t t) : t ≤ r.nextWake := by
  have htick := h.tick.le
  have hframe := h.frame.le
  have htimer := h.timer.le
  unfold nextWake
  omega

/-- Nothing is scheduled before the run wakes up. -/
theorem nextWake_le (h : r.Dues s t t t) (hx : r.pace.Scheduled s x) (ht : t ≤ x) :
    r.nextWake ≤ x := by
  have hdue : r.nextTick ≤ x ∨ r.nextFrame ≤ x ∨ r.nextTimer ≤ x := by
    rcases hx with hx | hx | hx
    · exact .inl (h.tick.le_of_onGrid hx ht)
    · exact .inr (.inl (h.frame.le_of_onGrid hx ht))
    · exact .inr (.inr (h.timer.le_of_onGrid hx ht))
  unfold nextWake
  omega

/-- Something is scheduled when the run wakes up. -/
theorem scheduled_nextWake (h : r.Dues s t t t) : r.pace.Scheduled s r.nextWake := by
  have hmin : r.nextWake = r.nextTick ∨ r.nextWake = r.nextFrame ∨ r.nextWake = r.nextTimer := by
    unfold nextWake
    omega
  rcases hmin with e | e | e
  · exact .inl (e ▸ h.tick.onGrid)
  · exact .inr (.inl (e ▸ h.frame.onGrid))
  · exact .inr (.inr (e ▸ h.timer.onGrid))

end Dues

/-- Where the clock and the due times stand in every phase. -/
def Exact (shows : ω → Int → Prop) (s : Int) (r : Run ε) (w : ω) : Prop :=
  match r.phase with
  | .start => shows w s
  | .look => ∃ t, shows w t ∧ t = r.nextWake ∧ r.Dues s t t t
  | .poll => shows w r.now ∧ r.now = r.nextWake ∧ r.Dues s r.now r.now r.now
  | .execute => shows w r.now ∧ r.nextTick = r.now ∧ r.Dues s r.now r.now r.now
  | .sound => shows w r.now ∧ r.Dues s (r.now + 1) r.now r.now
  | .draw => shows w r.now ∧ r.Dues s (r.now + 1) r.now (r.now + 1)
  | .measure => shows w r.now ∧ r.Dues s (r.now + 1) (r.now + 1) (r.now + 1)
  | .sleep delay => shows w r.now ∧ r.now + delay = r.nextWake ∧
      r.Dues s (r.now + 1) (r.now + 1) (r.now + 1)
  | .silence _ | .over _ => True

/-- **A step on an ideal clock serves what is due when it is due.** -/
theorem Step.exact (hi : host.IdealClock shows) (hp : r.pace.Moderate)
    (h : Step host r w next w') (he : r.Exact shows s w) : next.Exact shows s w' := by
  cases h with
  | begin hph e =>
    rw [Exact, hph] at he
    obtain ⟨rfl, hs⟩ := hi.read he e
    exact ⟨_, hs, by simp [nextWake], .start hp.tick.1, .start hp.frame.1, .start hp.timer.1⟩
  | look hph _ e =>
    rw [Exact, hph] at he
    obtain ⟨t, hclock, hwake, hd⟩ := he
    obtain ⟨rfl, hs⟩ := hi.read hclock e
    exact ⟨hs, hwake, hd.tick, hd.frame, hd.timer⟩
  | noTick hph hlt =>
    rw [Exact, hph] at he
    obtain ⟨hclock, -, hd⟩ := he
    exact ⟨hclock, hd.tick.mono (Int.le_of_lt (Int.lt_succ _)) hlt, hd.frame, hd.timer⟩
  | polled hph hdue e =>
    rw [Exact, hph] at he
    obtain ⟨hclock, -, hd⟩ := he
    exact ⟨hi.poll hclock e, Int.le_antisymm hdue hd.tick.le, hd.tick, hd.frame, hd.timer⟩
  | ticked hph _ =>
    rw [Exact, hph] at he
    obtain ⟨hclock, hdue, hd⟩ := he
    exact ⟨hclock, hd.tick.serve hp.tick.1 (Int.le_of_eq hdue), hd.frame, hd.timer⟩
  | checked hph _ htold =>
    rw [Exact, hph] at he
    obtain ⟨hclock, hd⟩ := he
    refine ⟨htold.shows_of_shows hi hclock, hd.tick, hd.frame, ?_⟩
    by_cases hlt : r.now < r.nextTimer
    · rw [if_pos hlt]
      exact hd.timer.mono (Int.le_of_lt (Int.lt_succ _)) hlt
    · rw [if_neg hlt]
      exact hd.timer.serve hp.timer.1 (Int.not_lt.mp hlt)
  | noFrame hph hlt =>
    rw [Exact, hph] at he
    obtain ⟨hclock, hd⟩ := he
    exact ⟨hclock, hd.tick, hd.frame.mono (Int.le_of_lt (Int.lt_succ _)) hlt, hd.timer⟩
  | clean hph hdue _ =>
    rw [Exact, hph] at he
    obtain ⟨hclock, hd⟩ := he
    exact ⟨hclock, hd.tick, hd.frame.serve hp.frame.1 hdue, hd.timer⟩
  | drawn hph hdue _ e =>
    rw [Exact, hph] at he
    obtain ⟨hclock, hd⟩ := he
    exact ⟨hi.render hclock e, hd.tick, hd.frame.serve hp.frame.1 hdue, hd.timer⟩
  | pause hph e hlt =>
    rw [Exact, hph] at he
    obtain ⟨hclock, hd⟩ := he
    obtain ⟨rfl, hs⟩ := hi.read hclock e
    exact ⟨hs, show r.now + (r.nextWake - r.now) = r.nextWake by omega, hd.tick, hd.frame,
      hd.timer⟩
  | noPause hph e hle =>
    -- everything due was served, so there is a time to sleep
    rw [Exact, hph] at he
    obtain ⟨hclock, hd⟩ := he
    obtain ⟨rfl, -⟩ := hi.read hclock e
    have := hd.le_nextWake
    omega
  | @slept delay _ hph e =>
    rw [Exact, hph] at he
    obtain ⟨hclock, hwake, hd⟩ := he
    have hpos := hd.le_nextWake
    have htick : r.nextWake ≤ r.nextTick := Int.min_le_left ..
    have hframe : r.nextWake ≤ r.nextFrame := by unfold nextWake; omega
    have htimer : r.nextWake ≤ r.nextTimer := by unfold nextWake; omega
    have hshort : delay ≤ second := by
      have := hd.tick.lt
      have := hp.tick.2
      omega
    obtain ⟨-, hs⟩ := hi.sleep hclock (by omega) hshort e
    rw [hwake] at hs
    exact ⟨_, hs, rfl, hd.tick.mono hpos htick, hd.frame.mono hpos hframe,
      hd.timer.mono hpos htimer⟩
  | exhausted | quit | pollFailed | halted | toneFailed | drawFailed | sleepFailed => trivial
  | silenced | silenceFailed => trivial
  | ended hph =>
    rw [Exact, hph]
    trivial

/-! ### The passes -/

/-- Which scheduled times have had their pass, in every phase. -/
def Served (s : Int) (l : List Int) (r : Run ε) : Prop :=
  match r.phase with
  | .start => l = []
  | .look | .poll => r.pace.Covers s l r.nextWake
  | .execute | .sound | .draw | .measure | .sleep _ => r.pace.Covers s l (r.now + 1)
  | .silence _ | .over _ => ∃ t, r.pace.Covers s l t

theorem Served.covers (hp : r.pace.Moderate) (hs : r.Served s l) : ∃ t, r.pace.Covers s l t := by
  unfold Served at hs
  split at hs
  · exact ⟨s, hs ▸ .nil hp⟩
  all_goals first | exact hs | exact ⟨_, hs⟩

/-- The pass taken up is the next one scheduled. -/
theorem Served.snoc (hp : r.phase = .poll) (he : r.Exact shows s w) (hs : r.Served s l) :
    r.pace.Covers s (l ++ r.passTime?.toList) (r.now + 1) := by
  rw [Exact, hp] at he
  rw [Served, hp] at hs
  obtain ⟨-, hnow, hd⟩ := he
  rw [passTime?_eq_some_iff.mpr ⟨hp, rfl⟩, hnow]
  exact hs.snoc hd.scheduled_nextWake

/-- Nothing is scheduled while the run sleeps. -/
theorem Dues.covers (hd : r.Dues s (r.now + 1) (r.now + 1) (r.now + 1))
    (hc : r.pace.Covers s l (r.now + 1)) : r.pace.Covers s l r.nextWake :=
  hc.mono hd.le_nextWake fun _ hx ht => hd.nextWake_le hx ht

/-- **A step makes the passes that are scheduled**, and no other. -/
theorem Step.served (hi : host.IdealClock shows) (hp : r.pace.Moderate)
    (h : Step host r w next w') (he : r.Exact shows s w) (hs : r.Served s l) :
    next.Served s (l ++ r.passTime?.toList) := by
  by_cases hph : r.phase = .poll
  · have hc := hs.snoc hph he
    cases h with
    | noTick | polled => exact hc
    | quit | pollFailed => exact ⟨_, hc⟩
    | _ => simp_all
  · rw [eq_none_of_note passTime?_eq_some_iff hph, Option.toList_none, List.append_nil]
    cases h with
    | @begin t _ hph e =>
      rw [Exact, hph] at he
      rw [Served, hph] at hs
      obtain ⟨rfl, -⟩ := hi.read he e
      have hwake : min t (min t t) = t := by omega
      show r.pace.Covers t l (min t (min t t))
      rw [hs, hwake]
      exact .nil hp
    | look hph _ _ =>
      rw [Served, hph] at hs
      exact hs
    | ticked hph _ | checked hph _ _ | noFrame hph _ | clean hph _ _ | drawn hph _ _ _
    | pause hph _ _ =>
      rw [Served, hph] at hs
      exact hs
    | noPause hph _ _ =>
      rw [Exact, hph] at he
      rw [Served, hph] at hs
      exact he.2.covers hs
    | slept hph _ =>
      rw [Exact, hph] at he
      rw [Served, hph] at hs
      exact he.2.2.covers hs
    | exhausted hph _ | halted hph _ | toneFailed hph _ _ | drawFailed hph _ _ _
    | sleepFailed hph _ =>
      rw [Served, hph] at hs
      exact ⟨_, hs⟩
    | silenced hph _ | silenceFailed hph _ =>
      rw [Served, hph] at hs
      exact hs
    | ended _ => exact hs
    | noTick h' | polled h' | quit h' | pollFailed h' => exact absurd h' hph

/-! ### The polls -/

/-- The first `k` times of a grid. -/
def gridTimes (s p : Int) (k : Nat) : List Int := (List.range k).map fun i : Nat => s + i * p

theorem gridTimes_succ (s p : Int) (k : Nat) :
    gridTimes s p (k + 1) = gridTimes s p k ++ [s + k * p] := by
  rw [gridTimes, List.range_succ, List.map_append]
  rfl

theorem getElem?_gridTimes {p x : Int} {k i : Nat} (h : (gridTimes s p k)[i]? = some x) :
    x = s + i * p := by
  obtain ⟨hi, rfl⟩ := List.getElem?_eq_some_iff.mp h
  simp [gridTimes]

/-- Which polls were made, in every phase, and when the next tick is due. -/
def Polled (s : Int) (l : List Int) (r : Run ε) : Prop :=
  match r.phase with
  | .start => l = []
  | .look | .poll | .sound | .draw | .measure | .sleep _ =>
    l = gridTimes s r.pace.tick r.cycles ∧ r.nextTick = s + r.cycles * r.pace.tick
  | .execute =>
    l = gridTimes s r.pace.tick (r.cycles + 1) ∧ r.nextTick = s + r.cycles * r.pace.tick
  | .silence _ | .over _ => ∃ k, l = gridTimes s r.pace.tick k

theorem Polled.eq_gridTimes (hl : r.Polled s l) : ∃ k, l = gridTimes s r.pace.tick k := by
  unfold Polled at hl
  split at hl
  · exact ⟨0, hl⟩
  all_goals first | exact hl | exact ⟨_, hl.1⟩

/-- The poll that is due is the next one of the grid. -/
theorem Polled.snoc (hp : r.phase = .poll ∧ r.nextTick ≤ r.now) (he : r.Exact shows s w)
    (hl : r.Polled s l) :
    l ++ r.pollTime?.toList = gridTimes s r.pace.tick (r.cycles + 1) ∧
      r.nextTick = s + r.cycles * r.pace.tick := by
  rw [Exact, hp.1] at he
  rw [Polled, hp.1] at hl
  obtain ⟨rfl, htick⟩ := hl
  have hnow : r.now = s + r.cycles * r.pace.tick :=
    (Int.le_antisymm he.2.2.tick.le hp.2).trans htick
  rw [pollTime?_eq_some_iff.mpr ⟨hp, rfl⟩, hnow, gridTimes_succ]
  exact ⟨rfl, htick⟩

/-- **A step makes the poll that is due**, and no other. -/
theorem Step.polls (hi : host.IdealClock shows) (hp : r.pace.Moderate)
    (h : Step host r w next w') (he : r.Exact shows s w) (hl : r.Polled s l) :
    next.Polled s (l ++ r.pollTime?.toList) := by
  by_cases hph : r.phase = .poll ∧ r.nextTick ≤ r.now
  · have hc := hl.snoc hph he
    cases h with
    | polled => exact hc
    | quit | pollFailed => exact ⟨_, hc.1⟩
    | noTick _ hlt => exact absurd hph.2 (Int.not_le.mpr hlt)
    | _ => simp_all
  · rw [eq_none_of_note pollTime?_eq_some_iff hph, Option.toList_none, List.append_nil]
    cases h with
    | @begin t _ hph e =>
      rw [Exact, hph] at he
      rw [Polled, hph] at hl
      obtain ⟨rfl, -⟩ := hi.read he e
      exact ⟨hl, show t = t + 0 * r.pace.tick by omega⟩
    | ticked hph _ =>
      rw [Exact, hph] at he
      rw [Polled, hph] at hl
      refine ⟨hl.1, ?_⟩
      show nextDue r.nextTick r.pace.tick r.now = s + (r.cycles + 1 : Nat) * r.pace.tick
      rw [← he.2.1, nextDue_self _ _ hp.tick.1, hl.2, Int.natCast_add, Int.add_mul]
      omega
    | look hph _ _ | noTick hph _ | checked hph _ _ | noFrame hph _ | clean hph _ _
    | drawn hph _ _ _ | pause hph _ _ | noPause hph _ _ | slept hph _ =>
      rw [Polled, hph] at hl
      exact hl
    | exhausted hph _ | halted hph _ | toneFailed hph _ _ | drawFailed hph _ _ _
    | sleepFailed hph _ =>
      rw [Polled, hph] at hl
      exact ⟨_, hl.1⟩
    | silenced hph _ | silenceFailed hph _ =>
      rw [Polled, hph] at hl
      exact hl
    | ended _ => exact hl
    | polled h' hdue | quit h' hdue | pollFailed h' hdue => exact absurd ⟨h', hdue⟩ hph

/-! ### Runs -/

theorem Begins.moderate {c : Config} {rate : Int} (hr : r.Begins c)
    (htick : 1 ≤ c.clockRate ∧ c.clockRate ≤ second)
    (hframe : 1 ≤ c.frameRate ∧ c.frameRate ≤ second)
    (htimer : 1 ≤ rate ∧ rate ≤ second) (hperiod : r.machine.timers.period = second.fdiv rate) :
    r.pace.Moderate := by
  rw [hr.pace]
  refine ⟨period_bounds htick, period_bounds hframe, ?_⟩
  rw [Pace.of, hperiod]
  exact period_bounds htimer

theorem after_exact (hi : host.IdealClock shows) (hp : r.pace.Moderate) (hs : r.phase = .start)
    (hw : shows w s) (n : Nat) :
    (r.after host n w).1.pace = r.pace ∧
      (r.after host n w).1.Exact shows s (r.after host n w).2 := by
  have hstart : r.Exact shows s w := by
    rw [Exact, hs]
    exact hw
  refine after_of_step (P := fun r' w' => r'.pace = r.pace ∧ r'.Exact shows s w')
    (fun h hr => ?_) ⟨rfl, hstart⟩ n
  exact ⟨h.pace_eq.trans hr.1, h.exact hi (hr.1 ▸ hp) hr.2⟩

/-- What every step on schedule keeps of a run and its notes, a run on an ideal clock keeps. -/
theorem noted_of_exact {note : Run ε → Option Int} {Q : List Int → Run ε → Prop}
    (hi : host.IdealClock shows) (hp : r.pace.Moderate) (hs : r.phase = .start) (hw : shows w s)
    (hstep : ∀ {l r w next w'}, Step host r w next w' → r.pace.Moderate → r.Exact shows s w →
      Q l r → Q (l ++ (note r).toList) next)
    (h : Q [] r) (n : Nat) : Q (r.noted note host w n) (r.after host n w).1 := by
  have hstart : r.Exact shows s w := by
    rw [Exact, hs]
    exact hw
  exact (noted_of_step
    (P := fun l r' w' => r'.pace = r.pace ∧ r'.Exact shows s w' ∧ Q l r')
    (fun h ⟨hpace, he, hq⟩ =>
      ⟨h.pace_eq.trans hpace, h.exact hi (hpace ▸ hp) he, hstep h (hpace ▸ hp) he hq⟩)
    ⟨rfl, hstart, h⟩ n).2.2

/-- The passes made are the scheduled times before some time. -/
theorem passes_covers (hi : host.IdealClock shows) (hp : r.pace.Moderate) (hs : r.phase = .start)
    (hw : shows w s) (n : Nat) : ∃ t, r.pace.Covers s (r.noted passTime? host w n) t := by
  have hstart : r.Served s [] := by rw [Served, hs]
  have hserved := noted_of_exact (Q := Served s) hi hp hs hw (fun h hp => h.served hi hp) hstart n
  have hpace := (after_exact hi hp hs hw n).1
  rw [← hpace]
  exact hserved.covers (hpace ▸ hp)

/-- The polls made are the first of their grid. -/
theorem polls_eq (hi : host.IdealClock shows) (hp : r.pace.Moderate) (hs : r.phase = .start)
    (hw : shows w s) (n : Nat) : ∃ k, r.noted pollTime? host w n = gridTimes s r.pace.tick k := by
  have hstart : r.Polled s [] := by rw [Polled, hs]
  have hpolled := noted_of_exact (Q := Polled s) hi hp hs hw (fun h hp => h.polls hi hp) hstart n
  rw [← (after_exact hi hp hs hw n).1]
  exact hpolled.eq_gridTimes

theorem length_le_of_increasing {s t : Int} {l : List Int} (hl : l.Pairwise (· < ·))
    (hb : ∀ x ∈ l, s ≤ x ∧ x < t) : l.length ≤ (t - s).toNat := by
  induction l generalizing s with
  | nil => exact Nat.zero_le _
  | cons a l ih =>
    obtain ⟨ha, hl⟩ := List.pairwise_cons.mp hl
    have hlen := ih (s := a + 1) hl fun x hx => ⟨ha x hx, (hb x (List.mem_cons_of_mem a hx)).2⟩
    have hab := hb a List.mem_cons_self
    rw [List.length_cons]
    omega

/-- Every scheduled time has its pass, unless the run is over before. -/
theorem scheduled_or_over (hi : host.IdealClock shows) (hp : r.pace.Moderate)
    (hs : r.phase = .start) (hw : shows w s) {x : Int} (hx : r.pace.Scheduled s x) :
    ∃ n, x ∈ r.noted passTime? host w n ∨ (r.after host n w).1.outcome?.isSome := by
  -- so many steps that they make more passes than there are scheduled times up to `x`
  have hgo := passes_go_on host r w (8 * (x - s).toNat + 16)
  generalize hn : 8 * (x - s).toNat + 16 = n at hgo
  rcases hgo with hleave | hlen
  · refine ⟨n + 1, .inr ?_⟩
    rw [after_succ]
    exact (advance_step ..).over_of_leaving hleave
  · refine ⟨n, .inl ?_⟩
    obtain ⟨t, hc⟩ := passes_covers hi hp hs hw n
    have hle := length_le_of_increasing hc.increasing fun y hy =>
      ⟨((hc.mem_iff y).mp hy).1.le hp, ((hc.mem_iff y).mp hy).2⟩
    have hage := (r.after host n w).1.phase.age_le
    exact (hc.mem_iff x).mpr ⟨hx, by omega⟩

/-- What the poll of a step has to do with the grid of the ticks. -/
theorem now_eq_of_poll (hi : host.IdealClock shows) (hp : r.pace.Moderate) (hs : r.phase = .start)
    (hw : shows w s) {n : Nat} {keys : Keypad}
    (hcall : (r.after host n w).1.call? = some (.poll keys)) :
    (r.after host n w).1.now = s + (r.log host w n).countP Call.isPoll * r.pace.tick := by
  obtain ⟨hphase, hdue, -⟩ := call?_eq_poll_iff.mp hcall
  have htime := pollTime?_eq_some_iff.mpr ⟨⟨hphase, hdue⟩, rfl⟩
  obtain ⟨k, e⟩ := polls_eq hi hp hs hw (n + 1)
  -- the poll is noted behind those in the log
  rw [countP_isPoll_log]
  refine getElem?_gridTimes (k := k) ?_
  rw [← e, noted, htime]
  exact List.getElem?_concat_length

/-- **The schedule of a run on an ideal clock.**  A run starts at the time `s`; its machine, its
frontend and its rates, each from one to a thousand million a second, do not matter.

The times of its passes are the scheduled times in increasing order, none left out; and every
scheduled time has its pass, unless the run is over before.  In a pass the clock shows its time.

The calls of the frontend are those in the log of the host.  With `k` polls in the log, the next is
made `k` periods of the ticks after `s`, and there is one in every pass at a time of this grid.  A
pass shows the picture before it is complete if and only if the screen is dirty and the time is one
of the grid of the pictures; and no picture is shown apart from that. -/
theorem Begins.keeps_schedule {c : Config} {rate : Int} (hr : r.Begins c)
    (htick : 1 ≤ c.clockRate ∧ c.clockRate ≤ second)
    (hframe : 1 ≤ c.frameRate ∧ c.frameRate ≤ second)
    (htimer : 1 ≤ rate ∧ rate ≤ second) (hperiod : r.machine.timers.period = second.fdiv rate)
    (hi : host.IdealClock shows) (hw : shows w s) :
    (∀ n, ∃ t, r.pace.Covers s (r.noted passTime? host w n) t) ∧
    (∀ x, r.pace.Scheduled s x →
      ∃ n, x ∈ r.noted passTime? host w n ∨ (r.after host n w).1.outcome?.isSome) ∧
    (∀ n keys, r.log host w (n + 1) = r.log host w n ++ [.poll keys] →
      (r.after host n w).1.now = s + (r.log host w n).countP Call.isPoll * r.pace.tick ∧
      shows (r.after host n w).2 (s + (r.log host w n).countP Call.isPoll * r.pace.tick)) ∧
    (∀ n, (r.after host n w).1.phase = .poll →
      shows (r.after host n w).2 (r.after host n w).1.now ∧
      ((∃ keys, r.log host w (n + 1) = r.log host w n ++ [.poll keys]) ↔
        OnGrid s r.pace.tick (r.after host n w).1.now)) ∧
    (∀ n, (r.after host (n + 1) w).1.phase = .measure →
      (r.log host w (n + 1) =
          r.log host w n ++ [.render (r.after host n w).1.machine.screen.pixels] ↔
        OnGrid s r.pace.frame (r.after host n w).1.now ∧
          (r.after host n w).1.machine.screen.dirty = true)) ∧
    ∀ n p, r.log host w (n + 1) = r.log host w n ++ [.render p] →
      shows (r.after host n w).2 (r.after host n w).1.now ∧
      OnGrid s r.pace.frame (r.after host n w).1.now ∧
      (r.after host n w).1.machine.screen.dirty = true ∧
      (r.after host n w).1.machine.screen.pixels = p := by
  have hp := hr.moderate htick hframe htimer hperiod
  have he := after_exact hi hp hr.phase hw
  refine ⟨passes_covers hi hp hr.phase hw, fun x => scheduled_or_over hi hp hr.phase hw,
    fun n keys hlog => ?_, fun n hpoll => ?_, fun n hmeasure => ?_, fun n p hlog => ?_⟩
  · have hcall := log_succ_iff.mp hlog
    have hnow := now_eq_of_poll hi hp hr.phase hw hcall
    obtain ⟨-, hn⟩ := he n
    rw [Exact, (call?_eq_poll_iff.mp hcall).1] at hn
    exact ⟨hnow, hnow ▸ hn.1⟩
  · obtain ⟨hpace, hn⟩ := he n
    rw [Exact, hpoll] at hn
    refine ⟨hn.1, ?_⟩
    simp only [log_succ_iff, call?_eq_poll_iff]
    rw [← hpace, ← hn.2.2.tick.le_iff]
    exact ⟨fun ⟨_, _, hdue, _⟩ => hdue, fun hdue => ⟨_, hpoll, hdue, rfl⟩⟩
  · obtain ⟨hpace, hn⟩ := he n
    rw [after_succ] at hmeasure
    have hdraw := (advance_step ..).draw_of_measure hmeasure
    rw [Exact, hdraw] at hn
    rw [log_succ_iff, call?_eq_render_iff, ← hpace, ← hn.2.frame.le_iff]
    exact ⟨fun ⟨_, hdue, hdirty, _⟩ => ⟨hdue, hdirty⟩,
      fun ⟨hdue, hdirty⟩ => ⟨hdraw, hdue, hdirty, rfl⟩⟩
  · obtain ⟨hpace, hn⟩ := he n
    obtain ⟨hdraw, hdue, hdirty, hpixels⟩ := call?_eq_render_iff.mp (log_succ_iff.mp hlog)
    rw [Exact, hdraw] at hn
    rw [← hpace, ← hn.2.frame.le_iff]
    exact ⟨hn.1, hdue, hdirty, hpixels⟩

/-- A run of a program that goes round in place, with three periods of which none is a multiple of
another. -/
def uneven : Run Mishap :=
  fresh { clockRate := 4, frameRate := 3 }
    { Machine.holding [(0x200, 0x12), (0x201, 0x00)] with timers := .stopped (second.fdiv 5) } none

theorem uneven_keeps_schedule :
    uneven.noted passTime? Bench.host {} 40 =
        [0, 200000000, 250000000, 333333333, 400000000, 500000000] ∧
      (∃ t, uneven.pace.Covers 0 [0, 200000000, 250000000, 333333333, 400000000, 500000000] t) ∧
      uneven.log Bench.host {} 35 = uneven.log Bench.host {} 34 ++ [.poll .released] ∧
      (uneven.after Bench.host 34 {}).2.clock.Ideal 500000000 := by
  have hbegins : uneven.Begins { clockRate := 4, frameRate := 3 } := begins_fresh ..
  have hclock : ({} : Bench).clock.Ideal 0 := ⟨rfl, rfl, rfl⟩
  have hrate : (1 : Int) ≤ 5 ∧ 5 ≤ second := by decide
  have hpasses : uneven.noted passTime? Bench.host {} 40 =
      [0, 200000000, 250000000, 333333333, 400000000, 500000000] := by decide +kernel
  have hpoll : uneven.log Bench.host {} 35 = uneven.log Bench.host {} 34 ++ [.poll .released] := by
    decide +kernel
  have htwo : (uneven.log Bench.host {} 34).countP Call.isPoll = 2 := by decide +kernel
  obtain ⟨hcovers, -, hpolls, -⟩ :=
    hbegins.keeps_schedule (by decide) (by decide) hrate rfl Bench.idealClock hclock
  have htime := (hpolls 34 _ hpoll).2
  rw [htwo] at htime
  exact ⟨hpasses, hpasses ▸ hcovers 40, hpoll, htime⟩

end Run

end ChipEight
