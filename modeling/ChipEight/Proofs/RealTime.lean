/-
The timers of a run in real time.

A run serves its passes at irregular times, and checks the timers once in each of them.  On an
ideal clock the passes are at most one period of the timers apart, so every timer that the run
has written keeps real time, whatever the rates of ticks and pictures are: written with `v` in
the pass at `start`, it holds

    v - min v ((now - start) / period)

after the pass at `now`, and the beeper sounds as long as `now < start + v * period`.

`Kept` is the invariant.  Between two passes all timers written are on time (`Settled`); from the
look at the clock to the check they are due for that check, one of them perhaps because it was
written just then.
-/
import ChipEight.Proofs.Beeper
import ChipEight.Proofs.Countdown
import ChipEight.Proofs.IdealClock
import ChipEight.Proofs.Timers

namespace ChipEight.Run

variable {ω ε : Type} {host : Host ω ε} {shows : ω → Int → Prop} {period : Int}
variable {r next : Run ε} {w w' : ω} {last : Timer → Option (Int × Int)}

/-! ### The last write to a timer -/

/-- What the next step of a run writes into a timer, if it writes one. -/
def written? (t : Timer) (r : Run ε) : Option Int :=
  match r.phase with
  | .execute => r.machine.written? t
  | _ => none

/-- The last write to a timer, with the time of its pass, after the next step of a run. -/
def noteWrite (t : Timer) (r : Run ε) (last : Option (Int × Int)) : Option (Int × Int) :=
  ((r.written? t).map fun v => (r.now, v)).or last

/-- The last write to a timer in the first steps of a run: the time of the pass and the value. -/
def lastWrite? (host : Host ω ε) (t : Timer) (r : Run ε) (w : ω) : Nat → Option (Int × Int)
  | 0 => none
  | n + 1 => (r.after host n w).1.noteWrite t (r.lastWrite? host t w n)

theorem noteWrite_of_execute (h : r.phase = .execute) (t : Timer) (last : Option (Int × Int)) :
    r.noteWrite t last = ((r.machine.written? t).map fun v => (r.now, v)).or last := by
  rw [noteWrite, written?, h]

theorem noteWrite_of_ne (h : r.phase ≠ .execute) (t : Timer) (last : Option (Int × Int)) :
    r.noteWrite t last = last := by
  have hn : r.written? t = none := by
    unfold written?
    split
    · contradiction
    · rfl
  rw [noteWrite, hn]
  rfl

/-! ### Runs about to start -/

/-- A run that is about to start, with the pace of its machine's timers. -/
structure Ready (r : Run ε) : Prop where
  phase : r.phase = .start
  pace : r.pace.timer = r.machine.timers.period

theorem ready_fresh (c : Config) (m : Machine) (limit : Option Int) :
    (fresh c m limit : Run ε).Ready :=
  ⟨rfl, rfl⟩

/-- Whenever a run is left off, another one can be started. -/
theorem Ready.again (h : r.Ready) (n : Nat) (limit : Option Int) :
    ((r.after host n w).1.again limit).Ready :=
  ⟨rfl, after_of_step (P := fun r _ => r.pace.timer = r.machine.timers.period)
    (fun hs hr => by rw [hs.pace_eq, hs.period_eq, hr]) h.pace n⟩

/-! ### The invariant -/

/-- All timers that were written are on time, and the beeper follows the sound timer. -/
structure Settled (period : Int) (last : Timer → Option (Int × Int)) (r : Run ε) : Prop where
  onTime : ∀ t start v, last t = some (start, v) →
    (r.machine.timers.countdown t).OnTime period start v r.now
  tone : (last .sound).isSome → r.tone = r.machine.timers.soundOn

/-- All timers that were written are due for the check in this pass. -/
def Awaiting (period : Int) (last : Timer → Option (Int × Int)) (r : Run ε) : Prop :=
  ∀ t start v, last t = some (start, v) →
    (r.machine.timers.countdown t).Due period start v r.now

/-- What is kept of the timers in every phase. -/
def Kept (period : Int) (last : Timer → Option (Int × Int)) (r : Run ε) : Prop :=
  match r.phase with
  | .start => ∀ t, last t = none
  | .poll | .execute | .sound => r.Awaiting period last
  | .look | .draw | .measure | .sleep _ => r.Settled period last
  | .silence _ | .over _ => True

/-- A look at an ideal clock finds every timer due that was on time in the last pass. -/
theorem Settled.awaiting (hs : r.Settled period last) {t : Int}
    (ht : r.Punctual shows period t w) :
    ({ r with phase := .poll, now := t } : Run ε).Awaiting period last := by
  intro timer start v hlast
  have hgap : t ≤ r.now + period := Int.le_trans ht.due ht.ahead
  exact .running r.now ht.passed hgap (hs.onTime timer start v hlast)

/-- What a tick writes is due for the check, and what it does not write stays due. -/
theorem Awaiting.ticked (ha : r.Awaiting period last) {m : Machine} (hm : r.machine.tick.2 = m) :
    ({ r with machine := m.releaseKeys } : Run ε).Awaiting period
      fun t => ((r.machine.written? t).map fun v => (r.now, v)).or (last t) := by
  intro t start v hlast
  have hc : m.timers.countdown t =
      ((r.machine.written? t).map .load).getD (r.machine.timers.countdown t) := by
    rw [← hm]
    exact r.machine.tick_timers.2 t
  show (m.timers.countdown t).Due period start v r.now
  rw [hc]
  rcases e : r.machine.written? t with - | u
  · -- the write is an older one, and the timer was due for the check already
    simp only [e, Option.map_none, Option.none_or] at hlast
    exact ha t start v hlast
  · -- the write is that of this tick
    simp only [e, Option.map_some, Option.some_or, Option.some.injEq, Prod.mk.injEq] at hlast
    obtain ⟨rfl, rfl⟩ := hlast
    exact .written rfl (Machine.written?_bounds e) rfl

/-- The check brings on time all timers that are due, and the beeper follows the sound timer. -/
theorem Awaiting.checked (ha : r.Awaiting period last) (hp : 0 < period)
    (hperiod : r.machine.timers.period = period) {m : Machine}
    (hm : r.machine.checkTimers r.now = m) :
    ({ r with machine := m, tone := m.timers.soundOn } : Run ε).Settled period last where
  onTime := by
    intro t start v hlast
    have hc : m.timers.countdown t = (r.machine.timers.countdown t).check period r.now := by
      rw [← hm, ← hperiod]
      exact r.machine.timers.countdown_check r.now t
    show (m.timers.countdown t).OnTime period start v r.now
    rw [hc]
    exact (ha t start v hlast).check hp
  tone := fun _ => rfl

theorem execute_kept (hph : r.phase = .execute) (ha : r.Awaiting period last) :
    r.execute.Kept period fun t => r.noteWrite t (last t) := by
  simp only [noteWrite_of_execute hph]
  unfold execute
  rcases e : r.machine.tick with ⟨_ | i, m⟩
  · trivial
  · exact Awaiting.ticked ha (by rw [e])

/-- A step that executes no instruction keeps the timers on time. -/
theorem Step.kept_of_ne (hi : host.IdealClock shows) (hp : 0 < period)
    (hperiod : r.machine.timers.period = period) (hne : r.phase ≠ .execute)
    (h : Step host r w next w') (ht : r.Timed shows period w) (hk : r.Kept period last) :
    next.Kept period last := by
  cases h with
  | begin hph _ =>
    -- nothing was written so far
    rw [Kept, hph] at hk
    refine ⟨fun t start v hlast => ?_, fun hlast => ?_⟩
    · rw [hk t] at hlast
      cases hlast
    · rw [hk .sound] at hlast
      cases hlast
  | look hph _ e =>
    rw [Timed, hph] at ht
    rw [Kept, hph] at hk
    obtain ⟨t, hpunctual⟩ := ht
    obtain ⟨rfl, -⟩ := hi.read hpunctual.clock e
    exact hk.awaiting hpunctual
  | noTick hph _ =>
    rw [Kept, hph] at hk
    exact hk
  | polled hph _ _ =>
    rw [Kept, hph] at hk
    exact hk
  | ticked hph _ => exact absurd hph hne
  | halted hph _ => exact absurd hph hne
  | checked hph hm _ =>
    rw [Kept, hph] at hk
    have hs := hk.checked hp hperiod hm
    exact ⟨hs.onTime, hs.tone⟩
  | noFrame hph _ | clean hph _ _ | drawn hph _ _ _ | pause hph _ _ | noPause hph _ _
  | slept hph _ =>
    rw [Kept, hph] at hk
    exact ⟨hk.onTime, hk.tone⟩
  | exhausted | quit | pollFailed | toneFailed | drawFailed | sleepFailed => trivial
  | silenced | silenceFailed => trivial
  | ended hph =>
    rw [Kept, hph]
    trivial

/-- **A step keeps the timers on time.** -/
theorem advance_kept (hi : host.IdealClock shows) (hp : 0 < period)
    (hperiod : r.machine.timers.period = period) (ht : r.Timed shows period w)
    (hk : r.Kept period last) :
    (r.advance host w).1.Kept period fun t => r.noteWrite t (last t) := by
  by_cases hph : r.phase = .execute
  · have ha : r.Awaiting period last := by
      rw [Kept, hph] at hk
      exact hk
    have he : r.advance host w = (r.execute, w) := by rw [advance, hph]
    rw [he]
    exact execute_kept hph ha
  · simp only [noteWrite_of_ne hph]
    exact (advance_step host r w).kept_of_ne hi hp hperiod hph ht hk

/-! ### Runs -/

/-- **A run on an ideal clock keeps its timers on time.** -/
theorem Ready.kept (hr : r.Ready) (hi : host.IdealClock shows)
    (hp : 0 < r.machine.timers.period ∧ r.machine.timers.period ≤ second) {t : Int}
    (hw : shows w t) (n : Nat) :
    (r.after host n w).1.Kept r.machine.timers.period fun t => r.lastWrite? host t w n := by
  have hstart : r.Timed shows r.machine.timers.period w := by
    rw [Timed, hr.phase]
    exact ⟨t, hw⟩
  induction n with
  | zero =>
    show r.Kept _ fun _ => none
    rw [Kept, hr.phase]
    exact fun _ => rfl
  | succ n ih =>
    have hperiod : (r.after host n w).1.machine.timers.period = r.machine.timers.period :=
      after_of_step (P := fun s _ => s.machine.timers.period = r.machine.timers.period)
        (fun hs h => by rw [hs.period_eq, h]) rfl n
    rw [after_succ]
    exact advance_kept hi hp.1 hperiod (after_timed hi hp hr.pace hstart n).2 ih

/-- **Timers and beeper keep real time.**  A run with an ideal clock, whose timers have a rate from
one to a thousand million a second, has come to the end of a pass.  Then a timer that was last
written with `v` in the pass at `start` has gone down by one for every whole period since, and
the beeper sounds as long as the sound timer should run.  The program, the keys, and the rates of
ticks and pictures do not matter. -/
theorem Ready.keeps_real_time {r r' : Run Mishap} {b b' : Bench} {n : Nat} {origin rate : Int}
    (hr : r.Ready) (hrate : 1 ≤ rate ∧ rate ≤ second)
    (hperiod : r.machine.timers.period = second.fdiv rate) (hclock : b.clock.Ideal origin)
    (htone : r.tone = b.frontend.sounding) (h : r.after Bench.host n b = (r', b'))
    (hlook : r'.phase = .look) :
    (∀ t start v, r.lastWrite? Bench.host t b n = some (start, v) →
      ((r'.machine.timers.countdown t).value.toNat : Int) =
        v - min v ((r'.now - start) / second.fdiv rate)) ∧
    ∀ start v, r.lastWrite? Bench.host .sound b n = some (start, v) →
      (b'.frontend.sounding = true ↔ 0 < v ∧ r'.now < start + v * second.fdiv rate) := by
  have hp := period_bounds hrate
  rw [← hperiod] at hp ⊢
  have hkept := hr.kept Bench.idealClock hp hclock n
  have hsound := after_tone_eq_sounding Bench.beeper htone n
  rw [h] at hkept hsound
  rw [Kept, hlook] at hkept
  refine ⟨fun t start v hlast => (hkept.onTime t start v hlast).value, fun start v hlast => ?_⟩
  have htimer : r'.tone = r'.machine.timers.soundOn := hkept.tone (by rw [hlast]; rfl)
  rw [← hsound, htimer, ← (hkept.onTime .sound start v hlast).pos_iff hp.1]
  exact decide_eq_true_iff

/-- A run of a program that writes both timers, which go down once in two milliseconds. -/
def beeping : Run Mishap :=
  fresh {}
    { Machine.holding [(0x200, 0xF0), (0x201, 0x15), (0x202, 0xF1), (0x203, 0x18), (0x204, 0x12),
        (0x205, 0x04)] with
      registers := .replicate 16 3
      timers := .stopped (second.fdiv 500) }
    none

theorem beeping_keeps_real_time :
    (((beeping.after Bench.host 15 {}).1.machine.timers.countdown .delay).value.toNat : Int) =
        3 - min 3 ((2000000 - 0) / second.fdiv 500) ∧
      (beeping.after Bench.host 15 {}).2.frontend.sounding = true := by
  have hrun : (beeping.after Bench.host 15 {}).1.phase = .look ∧
      (beeping.after Bench.host 15 {}).1.now = 2000000 ∧
      beeping.lastWrite? Bench.host .delay {} 15 = some (0, 3) ∧
      beeping.lastWrite? Bench.host .sound {} 15 = some (2000000, 3) := by decide +kernel
  obtain ⟨hlook, hnow, hdelay, hsound⟩ := hrun
  have hready : beeping.Ready := ready_fresh ..
  have hrate : (1 : Int) ≤ 500 ∧ 500 ≤ second := by decide
  have hclock : ({} : Bench).clock.Ideal 0 := ⟨rfl, rfl, rfl⟩
  obtain ⟨hvalue, htone⟩ := hready.keeps_real_time hrate rfl hclock rfl rfl hlook
  rw [hnow] at hvalue htone
  exact ⟨hvalue .delay 0 3 hdelay, (htone 2000000 3 hsound).mpr (by decide)⟩

end ChipEight.Run
