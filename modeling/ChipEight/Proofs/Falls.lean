/-
When a countdown goes down.

A countdown is written with `v` and then checked at the times `start :: times`.  Each check goes
down by one or leaves the value as it is.  If no two checks are more than a period apart, the
schedule is exact: the fall number `k`, counted from zero, is the first check at or after

    start + (k + 1) * period,

for all `k < v`, and there are no others (`falls_on_schedule`).

If the checks come at any times whatever, after stalls or even backwards, falls may be missed, but
none is made up for in a burst (`falls_spaced`):

    start + (k + 1) * period ≤ fall k,      (j - i - 1) * period < fall j - fall i    for i < j.

Both go by induction on the checks.  What is carried along is where the schedule is anchored: at
`start` plus the periods passed when the checks are in time (`OnTime`), and otherwise no sooner
than a period after the anchor before, and later than a period before the last fall (`check_fall`).
-/
import Mathlib.Data.List.Chain
import ChipEight.Proofs.Countdown

namespace ChipEight.Countdown

variable {period start v now t : Int} {c : Countdown} {times : List Int}

/-! ### Which checks go down -/

theorem not_isDue_of_zero (h0 : c.value = 0) : ¬ c.isDue period now = true := by
  simp [isDue, lateness?, h0]

theorem not_isDue_of_new (ha : c.anchor = none) : ¬ c.isDue period now = true := by
  simp [isDue, lateness?, ha]

theorem isDue_iff (ha : c.anchor = some t) :
    c.isDue period now = true ↔ c.value ≠ 0 ∧ period ≤ now - t := by
  rcases Int.lt_or_le (now - t) period with hlt | hle
  · simp [isDue, lateness?, ha, hlt]
  · simp [isDue, lateness?, ha, hle, Int.not_lt.mpr hle]

/-- A check takes one from the value if it goes down, and nothing otherwise. -/
theorem value_check (period now : Int) (c : Countdown) :
    (c.check period now).value.toNat + (if c.isDue period now then 1 else 0) = c.value.toNat := by
  rcases hl : c.lateness? period now with - | late
  · simp [check, isDue, hl]
  · have hdue : c.isDue period now = true := by simp [isDue, hl]
    have hpos : 0 < c.value.toNat :=
      Nat.pos_of_ne_zero fun h => not_isDue_of_zero (UInt8.toNat_inj.mp h) hdue
    have hone : (1 : UInt8) ≤ c.value := UInt8.le_iff_toNat_le.mpr hpos
    rw [if_pos hdue]
    simp only [check, hl]
    rw [UInt8.toNat_sub_of_le _ _ hone]
    exact Nat.sub_add_cancel hpos

/-- The places in a list of times at which the countdown goes down. -/
def fallPlaces (period : Int) (c : Countdown) (times : List Int) : List Nat :=
  (List.range times.length).filter fun n =>
    times[n]?.any fun now => (c.after period (times.take n)).isDue period now

theorem fallPlaces_cons (period now : Int) (c : Countdown) (times : List Int) :
    c.fallPlaces period (now :: times) = (if c.isDue period now then [0] else []) ++
      ((c.check period now).fallPlaces period times).map (· + 1) := by
  have hafter : ∀ n, c.after period ((now :: times).take (n + 1)) =
      (c.check period now).after period (times.take n) := fun _ => rfl
  have hzero : c.after period ((now :: times).take 0) = c := rfl
  unfold fallPlaces
  rw [List.length_cons, List.range_succ_eq_map, List.filter_cons, List.filter_map]
  simp only [List.getElem?_cons_zero, Option.any_some, hzero, Function.comp_def,
    List.getElem?_cons_succ, hafter]
  split <;> rfl

theorem fallPlaces_of_due (h : c.isDue period now = true) (times : List Int) :
    c.fallPlaces period (now :: times) =
      0 :: ((c.check period now).fallPlaces period times).map (· + 1) := by
  rw [fallPlaces_cons, if_pos h]
  rfl

theorem fallPlaces_of_not_due (h : ¬ c.isDue period now = true) (times : List Int) :
    c.fallPlaces period (now :: times) =
      ((c.check period now).fallPlaces period times).map (· + 1) := by
  rw [fallPlaces_cons, if_neg h]
  rfl

/-! ### Checks in time -/

/-- The second of two checks comes in time: not before the first, and at most a period later. -/
def InTime (period now now' : Int) : Prop := now ≤ now' ∧ now' ≤ now + period

/-- A countdown on time goes down at the next multiple of the period, if it has not run out. -/
theorem OnTime.isDue_iff (h : OnTime period start v now c) (now' : Int) :
    c.isDue period now' = true ↔
      (now - start) / period < v ∧ start + ((now - start) / period + 1) * period ≤ now' := by
  by_cases h0 : c.value = 0
  · have hout := h.le_of_zero h0
    exact iff_of_false (not_isDue_of_zero h0) fun hlt => by omega
  · have hvalue := h.value
    have hpos : 0 < c.value.toNat := Nat.pos_of_ne_zero fun h => h0 (UInt8.toNat_inj.mp h)
    rw [Countdown.isDue_iff (h.anchor h0), Int.add_mul, Int.one_mul]
    constructor
    · rintro ⟨-, hle⟩
      omega
    · rintro ⟨-, hle⟩
      exact ⟨h0, by omega⟩

/-- Being on time is kept by checks in time. -/
theorem OnTime.after (hp : 0 < period) (h : OnTime period start v now c)
    (hc : (now :: times).IsChain (InTime period)) {i : Nat} (ht : (now :: times)[i]? = some t) :
    OnTime period start v t (c.after period (times.take i)) := by
  induction times generalizing now c i with
  | nil =>
    obtain ⟨rfl, rfl⟩ : i = 0 ∧ now = t := by
      cases i <;> simp_all
    exact h
  | cons now' times ih =>
    obtain ⟨⟨hle, hgap⟩, hc⟩ := List.isChain_cons_cons.mp hc
    cases i with
    | zero =>
      obtain rfl := Option.some.inj ht
      exact h
    | succ i => exact ih (h.check hp hle hgap) hc ht

/-- Of two checks in time the second has at most one period more behind it. -/
theorem InTime.periods_eq (hp : 0 < period) (h : InTime period now t) (start : Int) :
    (t - start) / period = (now - start) / period +
      if start + ((now - start) / period + 1) * period ≤ t then 1 else 0 := by
  obtain ⟨hle, hgap⟩ := h
  generalize hq : (now - start) / period = q
  obtain ⟨hlow, hhigh⟩ := (Int.ediv_eq_iff_of_pos hp).mp hq
  have hsucc : (q + 1) * period = q * period + period := by rw [Int.add_mul, Int.one_mul]
  split
  · exact (Int.ediv_eq_iff_of_pos hp).mpr (by omega)
  · rw [Int.add_zero]
    exact (Int.ediv_eq_iff_of_pos hp).mpr (by omega)

/-- A time before the next multiple of the period is before all later ones. -/
theorem not_le_of_early (hp : 0 < period) {q : Int} {k : Nat} (h : t < start + (q + 1) * period) :
    ¬ start + (q + k + 1) * period ≤ t := by
  have hmul : (q + 1) * period ≤ (q + k + 1) * period :=
    Int.mul_le_mul_of_nonneg_right (by omega) (by omega)
  omega

theorem findIdx?_of_early {bound : Int} (h : ¬ bound ≤ now) (times : List Int) :
    (now :: times).findIdx? (bound ≤ ·) = (times.findIdx? (bound ≤ ·)).map (· + 1) := by
  rw [List.findIdx?_cons, if_neg (by simpa using h)]

/-- **Where a countdown on time goes down**, as long as the checks are in time. -/
theorem OnTime.getElem?_fallPlaces (hp : 0 < period) (h : OnTime period start v now c)
    (hc : (now :: times).IsChain (InTime period)) (k : Nat) :
    (c.fallPlaces period times)[k]? =
      if (now - start) / period + k < v then
        times.findIdx? (start + ((now - start) / period + k + 1) * period ≤ ·)
      else none := by
  induction times generalizing now c k with
  | nil => simp [fallPlaces]
  | cons now' times ih =>
    obtain ⟨hin, hc⟩ := List.isChain_cons_cons.mp hc
    have hnext := ih (h.check hp hin.1 hin.2) hc
    have hdue := h.isDue_iff now'
    have hperiods := hin.periods_eq hp start
    have hbelow : now' < start + ((now' - start) / period + 1) * period := by
      have := Int.lt_ediv_add_one_mul_self (now' - start) hp
      omega
    generalize (now - start) / period = q at hdue hperiods ⊢
    generalize (now' - start) / period = q' at hnext hperiods hbelow
    by_cases hdown : c.isDue period now' = true
    · -- this check is the first of the falls that are still to come
      obtain ⟨hlt, hreached⟩ := hdue.mp hdown
      obtain rfl : q' = q + 1 := by simpa [hreached] using hperiods
      rw [fallPlaces_of_due hdown]
      cases k with
      | zero => simp [List.findIdx?_cons, hlt, hreached]
      | succ k =>
        have hk : q + (k + 1 : Nat) = q + 1 + k := by omega
        have hlate := not_le_of_early (k := k) hp hbelow
        rw [hk, List.getElem?_cons_succ, List.getElem?_map, hnext, findIdx?_of_early hlate]
        split <;> rfl
    · rw [fallPlaces_of_not_due hdown, List.getElem?_map, hnext]
      rcases Int.lt_or_le q v with hlt | hout
      · -- no further period has passed, so all falls are still to come
        have hreached : ¬ start + (q + 1) * period ≤ now' := fun h => hdown (hdue.mpr ⟨hlt, h⟩)
        obtain rfl : q' = q := by simpa [hreached] using hperiods
        have hlate := not_le_of_early (k := k) hp hbelow
        rw [findIdx?_of_early hlate]
        split <;> rfl
      · -- the countdown has run out
        have hle : q ≤ q' := by
          rw [hperiods]
          split <;> omega
        rw [if_neg (by omega), if_neg (by omega)]
        rfl

/-- **Checks in time make an exact countdown.**  A countdown is written with `v`, first checked at
`start`, and then at times none of which is before the one before it or more than a period after
it.  After the check at `t` it holds what was written less the whole periods since `start`.  The
fall number `k`, counted from zero, is made by the first check at or after `k + 1` periods from
`start`, and there are no more falls than what was written. -/
theorem falls_on_schedule (hp : 1 ≤ period) (v : Int)
    (hc : (start :: times).IsChain (InTime period)) :
    (∀ (i : Nat) t, (start :: times)[i]? = some t →
      (((load v).after period ((start :: times).take (i + 1))).value.toNat : Int) =
        v % 256 - min (v % 256) ((t - start) / period)) ∧
    (∀ k : Nat, k < v % 256 →
      ((load v).fallPlaces period (start :: times))[k]? =
        (start :: times).findIdx? (start + (k + 1) * period ≤ ·)) ∧
    (((load v).fallPlaces period (start :: times)).length : Int) ≤ v % 256 := by
  have hpos : 0 < period := hp
  have hon := onTime_load period start v
  -- the first check sets the anchor and never goes down
  have hplaces : (load v).fallPlaces period (start :: times) =
      (((load v).check period start).fallPlaces period times).map (· + 1) :=
    fallPlaces_of_not_due (not_isDue_of_new rfl) times
  have hfalls := hon.getElem?_fallPlaces hpos hc
  simp only [Int.sub_self, Int.zero_ediv, Int.zero_add] at hfalls
  refine ⟨fun i t ht => (hon.after hpos hc ht).value, fun k hk => ?_, ?_⟩
  · have hstart : ¬ start + ((k : Int) + 1) * period ≤ start := by
      have : 0 < ((k : Int) + 1) * period := Int.mul_pos (by omega) hpos
      omega
    rw [hplaces, List.getElem?_map, hfalls, if_pos hk, findIdx?_of_early hstart]
  · rw [hplaces, List.length_map]
    have hnone := hfalls (v % 256).toNat
    rw [if_neg (by omega)] at hnone
    have := List.getElem?_eq_none_iff.mp hnone
    omega

/-- Times of checks that are never more than five apart, twice at the same time. -/
def jittery : List Int := [103, 105, 105, 109, 114, 115, 120]

/-- Two are written, and the checks at 105 and 114 go down: the first ones at or after 105 and
110. -/
theorem jittery_on_schedule :
    (1 : Int) ≤ 5 ∧ (100 :: jittery).IsChain (InTime 5) ∧
      ((load 258).fallPlaces 5 (100 :: jittery))[0]? = some 2 ∧
        ((load 258).fallPlaces 5 (100 :: jittery))[1]? = some 5 ∧
          (((load 258).after 5 ((100 :: jittery).take 5)).value.toNat : Int) = 1 := by
  have hp : (1 : Int) ≤ 5 := by decide
  have hc : (100 :: jittery).IsChain (InTime 5) := by simp [jittery, InTime]
  obtain ⟨hvalue, hplaces, -⟩ := falls_on_schedule hp 258 hc
  refine ⟨hp, hc, ?_, ?_, ?_⟩
  · rw [hplaces 0 (by decide)]
    decide
  · rw [hplaces 1 (by decide)]
    decide
  · rw [hvalue 4 109 rfl]
    decide

/-! ### Checks at any times -/

/-- Falls of a countdown that was first checked at `start`: none is before its time, and no two
are closer than the schedule allows after a stall. -/
structure Spaced (start period : Int) (falls : List Int) : Prop where
  notEarly : ∀ (k : Nat) d, falls[k]? = some d → start + (k + 1) * period ≤ d
  apart : ∀ (i j : Nat) d d', i < j → falls[i]? = some d → falls[j]? = some d' →
    ((j : Int) - i - 1) * period < d' - d

theorem spaced_nil (start period : Int) : Spaced start period [] := ⟨nofun, nofun⟩

/-- One fall more at the beginning: it moves the anchor from `t` to `t'`. -/
theorem Spaced.cons {t' : Int} {falls : List Int} (h : Spaced t' period falls)
    (hdue : t + period ≤ now) (hnext : t + period ≤ t') (hback : now - period < t') :
    Spaced t period (now :: falls) where
  notEarly k d hd := by
    cases k with
    | zero =>
      obtain rfl := Option.some.inj hd
      omega
    | succ k =>
      have hlater := h.notEarly k d hd
      simp only [Int.natCast_succ, Int.add_mul, Int.one_mul] at hlater ⊢
      omega
  apart i j d d' hij hd hd' := by
    obtain ⟨j, rfl⟩ : ∃ k, j = k + 1 := ⟨j - 1, by omega⟩
    cases i with
    | zero =>
      obtain rfl := Option.some.inj hd
      have hlater := h.notEarly j d' hd'
      simp only [Int.natCast_succ, Int.add_mul, Int.sub_mul, Int.one_mul] at hlater ⊢
      omega
    | succ i =>
      have hsame : ((j + 1 : Nat) : Int) - (i + 1 : Nat) - 1 = j - i - 1 := by omega
      rw [hsame]
      exact h.apart i j d d' (by omega) hd hd'

/-- **What a fall does to the schedule**: it comes a period after the anchor or later, and the next
anchor is a period or more after the last one, and later than a period before the fall. -/
theorem check_fall (hp : 0 < period) (ha : c.anchor = some t) (hdue : c.isDue period now = true) :
    t + period ≤ now ∧
      ∃ t', c.check period now = ⟨c.value - 1, some t'⟩ ∧ t + period ≤ t' ∧ now - period < t' := by
  obtain ⟨h0, hle⟩ := (isDue_iff ha).mp hdue
  have hl : c.lateness? period now = some (now - t - period) := by
    simp only [lateness?, h0, ha, if_neg (Int.not_lt.mpr hle), if_false]
  refine ⟨by omega, ?_⟩
  simp only [check, hl]
  refine ⟨_, rfl, ?_, ?_⟩
  · split <;> omega
  · split <;> omega

theorem check_of_not_due (hv : c.value ≠ 0) (ha : c.anchor = some t)
    (hdue : ¬ c.isDue period now = true) : c.check period now = c :=
  check_of_early hv ha (Int.not_le.mp fun h => hdue ((isDue_iff ha).mpr ⟨hv, h⟩))

/-- A countdown that has run out goes down no more. -/
theorem falls_of_zero (h0 : c.value = 0) (times : List Int) : c.falls period times = [] := by
  induction times generalizing c with
  | nil => rfl
  | cons now times ih =>
    rw [falls, if_neg (not_isDue_of_zero h0)]
    exact ih (by rw [check_of_zero h0])

/-- **Falls are spaced from the anchor on.** -/
theorem falls_of_anchor (hp : 0 < period) (ha : c.anchor = some t) (times : List Int) :
    Spaced t period (c.falls period times) := by
  induction times generalizing c t with
  | nil => exact spaced_nil t period
  | cons now times ih =>
    by_cases h0 : c.value = 0
    · rw [falls_of_zero h0]
      exact spaced_nil t period
    by_cases hdue : c.isDue period now = true
    · obtain ⟨hlate, t', hcheck, hnext, hback⟩ := check_fall hp ha hdue
      rw [falls, if_pos hdue]
      exact (ih (by rw [hcheck])).cons hlate hnext hback
    · rw [falls, if_neg hdue, check_of_not_due h0 ha hdue]
      exact ih ha

/-- What was taken from the value is the number of falls. -/
theorem value_after (period : Int) (c : Countdown) (times : List Int) :
    (c.after period times).value.toNat + (c.falls period times).length = c.value.toNat := by
  induction times generalizing c with
  | nil => rfl
  | cons now times ih =>
    have hnext := ih (c.check period now)
    have hone := value_check period now c
    show ((c.check period now).after period times).value.toNat + _ = _
    by_cases hdue : c.isDue period now = true
    · rw [if_pos hdue] at hone
      rw [falls, if_pos hdue, List.length_cons]
      omega
    · rw [if_neg hdue] at hone
      rw [falls, if_neg hdue]
      omega

/-- **Checks at any times make no burst.**  A countdown is written with `v`, first checked at
`start`, and then at any times whatever.  The fall number `k`, counted from zero, is no sooner than
`k + 1` periods after `start`; between two falls lie more than the periods of those in between; and
after each check the value is what was written less the falls so far. -/
theorem falls_spaced (hp : 1 ≤ period) (v start : Int) (times : List Int) :
    Spaced start period ((load v).falls period (start :: times)) ∧
      ∀ n, (((load v).after period ((start :: times).take n)).value.toNat : Int) =
        v % 256 - ((load v).falls period ((start :: times).take n)).length := by
  have hpos : 0 < period := hp
  refine ⟨?_, fun n => ?_⟩
  · by_cases h0 : (load v).value = 0
    · rw [falls_of_zero h0]
      exact spaced_nil start period
    · -- the first check sets the anchor
      rw [falls, if_neg (not_isDue_of_new rfl), check_of_new h0 rfl]
      exact falls_of_anchor hpos rfl times
  · have hvalue := value_after period (load v) ((start :: times).take n)
    have hload := toNat_load v
    omega

/-- Times of checks with two stalls, and one that is before the others. -/
def stalled : List Int := [131, 90, 132, 141, 200]

theorem stalled_spaced :
    (1 : Int) ≤ 10 ∧ (load 3).falls 10 (100 :: stalled) = [131, 141, 200] ∧
      Spaced 100 10 ((load 3).falls 10 (100 :: stalled)) ∧
        (((load 3).after 10 ((100 :: stalled).take 5)).value.toNat : Int) = 3 - 2 := by
  have hp : (1 : Int) ≤ 10 := by decide
  obtain ⟨hspaced, hvalue⟩ := falls_spaced hp 3 100 stalled
  refine ⟨hp, by decide, hspaced, ?_⟩
  rw [hvalue 5]
  decide

end ChipEight.Countdown
