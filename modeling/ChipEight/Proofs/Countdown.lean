/-
Countdowns in real time.

A countdown that was written with `v` and first checked at `start` ought to hold

    v - min v ((now - start) / period)

at `now`.  It does after every check, provided that no two checks are more than a period
apart (`OnTime.check`): then a decrement is never late by a whole period, the anchor is never
set anew, and it stays at `start` plus a whole number of periods.  How the checks fall between
two decrements does not matter, so the countdown does not drift.

A countdown that waits for its next check is `Due`: it was just written, or it was on time at a
check no more than a period ago.  The check brings it on time (`Due.check`).
-/
import ChipEight.Countdown

namespace ChipEight.Countdown

variable {period start v now now' t : Int} {c : Countdown}

/-! ### Single checks -/

theorem check_of_zero (hv : c.value = 0) : c.check period now = ⟨0, none⟩ := by
  simp [check, lateness?, hv]

/-- The first check after a write sets the anchor. -/
theorem check_of_new (hv : c.value ≠ 0) (ha : c.anchor = none) :
    c.check period now = ⟨c.value, some now⟩ := by
  simp [check, lateness?, hv, ha]

theorem check_of_early (hv : c.value ≠ 0) (ha : c.anchor = some t) (h : now - t < period) :
    c.check period now = c := by
  obtain ⟨value, anchor⟩ := c
  obtain rfl : anchor = some t := ha
  simp [check, lateness?, show value ≠ 0 from hv, h]

/-- A decrement that is not late by a whole period moves the anchor on by one. -/
theorem check_of_due (hv : c.value ≠ 0) (ha : c.anchor = some t) (h : period ≤ now - t)
    (hlate : now - t < 2 * period) : c.check period now = ⟨c.value - 1, some (t + period)⟩ := by
  have hl : c.lateness? period now = some (now - t - period) := by
    simp only [lateness?, hv, ha, if_neg (Int.not_lt.mpr h), if_false]
  have hlt : now - t - period < period := by omega
  have ht : now - (now - t - period) = t + period := by omega
  simp only [check, hl, if_pos hlt, ht]

/-! ### Countdowns on time -/

/-- A countdown written with `v` and first checked at `start` is on time at a check at `now`:
it holds what it ought to, and its schedule is anchored to the last of the periods passed. -/
structure OnTime (period start v now : Int) (c : Countdown) : Prop where
  started : start ≤ now
  value : (c.value.toNat : Int) = v - min v ((now - start) / period)
  anchor : c.value ≠ 0 → c.anchor = some (start + (now - start) / period * period)

/-- What has run out stays on time at zero. -/
theorem onTime_zero (hs : start ≤ now) (h : v ≤ (now - start) / period) :
    OnTime period start v now ⟨0, none⟩ where
  started := hs
  value := by
    rw [Int.min_eq_left h, Int.sub_self]
    rfl
  anchor := fun h0 => absurd rfl h0

theorem OnTime.le_of_zero (h : OnTime period start v now c) (h0 : c.value = 0) :
    v ≤ (now - start) / period := by
  have hvalue := h.value
  rw [h0] at hvalue
  simp at hvalue
  omega

theorem toNat_load (v : Int) : ((load v).value.toNat : Int) = v % 256 := by
  simp only [load, UInt8.ofInt, UInt8.toNat_ofNat']
  omega

/-- **The first check after a write starts the countdown on time.** -/
theorem onTime_load (period start v : Int) :
    OnTime period start (v % 256) start ((load v).check period start) := by
  have hload := toNat_load v
  by_cases h0 : (load v).value = 0
  · rw [check_of_zero h0]
    rw [h0] at hload
    refine onTime_zero (Int.le_refl start) ?_
    simp at hload ⊢
    omega
  · rw [check_of_new h0 rfl]
    refine ⟨Int.le_refl start, ?_, fun _ => by simp⟩
    simp only [Int.sub_self, Int.zero_ediv, hload]
    omega

/-- **A countdown stays on time from one check to the next**, if they are at most a period
apart. -/
theorem OnTime.check (hp : 0 < period) (h : OnTime period start v now c) (hnow : now ≤ now')
    (hgap : now' ≤ now + period) : OnTime period start v now' (c.check period now') := by
  by_cases h0 : c.value = 0
  · rw [check_of_zero h0]
    have hle : (now - start) / period ≤ (now' - start) / period :=
      Int.ediv_le_ediv hp (Int.sub_le_sub_right hnow start)
    exact onTime_zero (Int.le_trans h.started hnow) (Int.le_trans (h.le_of_zero h0) hle)
  obtain ⟨hstart, hvalue, hanchor⟩ := h
  generalize hq : (now - start) / period = q at hvalue hanchor
  obtain ⟨hlow, hhigh⟩ := (Int.ediv_eq_iff_of_pos hp).mp hq
  have hsucc : (q + 1) * period = q * period + period := by rw [Int.add_mul, Int.one_mul]
  rcases Int.lt_or_le (now' - start) (q * period + period) with hlt | hge
  · -- no further period has passed
    have hq' : (now' - start) / period = q := (Int.ediv_eq_iff_of_pos hp).mpr (by omega)
    rw [check_of_early h0 (hanchor h0) (by omega)]
    exact ⟨Int.le_trans hstart hnow, by rw [hq', hvalue], by rw [hq']; exact hanchor⟩
  · -- one period has passed, and less than two, since the check is no later than `now + period`
    have hq' : (now' - start) / period = q + 1 := (Int.ediv_eq_iff_of_pos hp).mpr (by omega)
    have hpos : 0 < c.value.toNat := Nat.pos_of_ne_zero fun h => h0 (UInt8.toNat_inj.mp h)
    have hone : (1 : UInt8) ≤ c.value := UInt8.le_iff_toNat_le.mpr hpos
    rw [check_of_due h0 (hanchor h0) (by omega) (by omega)]
    refine ⟨Int.le_trans hstart hnow, ?_, fun _ => ?_⟩
    · rw [hq', UInt8.toNat_sub_of_le _ _ hone]
      simp
      omega
    · rw [hq', hsucc, Int.add_assoc]

/-- A countdown on time runs for as many periods as it was written with. -/
theorem OnTime.pos_iff (hp : 0 < period) (h : OnTime period start v now c) :
    0 < c.value ↔ 0 < v ∧ now < start + v * period := by
  have hvalue := h.value
  have hq : 0 ≤ (now - start) / period := Int.ediv_nonneg (by have := h.started; omega) (by omega)
  have hlt : (now - start) / period < v ↔ now - start < v * period := Int.ediv_lt_iff_lt_mul hp
  rw [UInt8.lt_iff_toNat_lt]
  show 0 < c.value.toNat ↔ _
  omega

/-! ### Countdowns due for a check -/

/-- A countdown whose check at `now` comes in time. -/
inductive Due (period start v now : Int) (c : Countdown) : Prop
  /-- it was just written -/
  | written : start = now → 0 ≤ v ∧ v ≤ 255 → c = load v → Due period start v now c
  /-- it was on time, and that is at most a period ago -/
  | running (before : Int) : before ≤ now → now ≤ before + period →
      OnTime period start v before c → Due period start v now c

/-- **A check in time brings a countdown on time.** -/
theorem Due.check (hp : 0 < period) (h : Due period start v now c) :
    OnTime period start v now (c.check period now) := by
  cases h with
  | written hs hv hc =>
    have hload := onTime_load period start v
    rw [Int.emod_eq_of_lt hv.1 (by omega)] at hload
    rw [hc, ← hs]
    exact hload
  | running before hle hgap hon => exact hon.check hp hle hgap

end ChipEight.Countdown
