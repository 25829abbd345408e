/-
The beep loops without a click.

A wave is played over and over, so what is heard is sample `i mod length`, without end.  The length
is a whole number of periods, so this is

    sample (i mod length)  =  sample i,

which repeats after every period, also where the wave begins anew; and wherever a period is cut
out, half of its samples are high (`Loops`).

It remains to be shown which period the wave of a tone has.  It is counted in binary first and in
whole samples then, and the samples of the wave are counted in binary as well.  But where there is
room for the wave, neither of its numbers is so large that this would make a difference
(`ofTone_eq_ok_iff`): the rate is below

    tone * (period + 1)   ≤   19 * repetitions * 2 * period   =   38 * length.

Main result: `loops_seamlessly`.
-/
import ChipEight.SquareWave
import ChipEight.Proofs.Rounding
import Mathlib.Data.Nat.Periodic

namespace ChipEight

/-! ### Room -/

/-- Eight bytes are needed for the number of a sample. -/
theorem Shape.fault?_position_iff {n : Nat} :
    Shape.fault? ⟨[n], .position⟩ = none ↔ 8 * n < room := by
  have hbytes : Shape.bytes ⟨[n], .position⟩ = 8 * n := rfl
  have hextent : Shape.extent ⟨[n], .position⟩ ≤ max 8 (8 * n) := by
    by_cases hn : n = 0 <;> simp [Shape.extent, Element.bytes, hn]
  unfold Shape.fault?
  rw [hbytes]
  by_cases hmany : LongWord.greatest < (Shape.extent ⟨[n], .position⟩ : Nat)
  · rw [if_pos hmany]
    unfold LongWord.greatest at hmany
    have hle := room_le
    exact iff_of_false (by simp) (by omega)
  · rw [if_neg hmany]
    by_cases hroom : room ≤ 8 * n
    · rw [if_pos hroom]
      exact iff_of_false (by simp) (Nat.not_lt.mpr hroom)
    · rw [if_neg hroom]
      exact iff_of_true rfl (Nat.not_le.mp hroom)

/-! ### What is heard -/

/-- Sample `i` of a buffer that is played over and over. -/
def looped (buffer : List Int) (i : Nat) : Int := buffer.getD (i % buffer.length) 0

/-- A buffer of whole periods of a square wave that goes on with the next period where it begins
anew. -/
structure Loops (buffer : List Int) (period : Nat) : Prop where
  whole : 0 < buffer.length ∧ period ∣ buffer.length
  square : ∀ x ∈ buffer, x = SquareWave.peak ∨ x = -SquareWave.peak
  seam : ∀ i < buffer.length, buffer[i]? = buffer[(i + period) % buffer.length]?
  /-- half of the samples of any period are high -/
  half : ∀ j, ((Finset.Ico j (j + period)).filter fun i =>
    looped buffer i = SquareWave.peak).card = period / 2
  high : ∀ j, ∃ i ∈ Finset.Ico j (j + period), looped buffer i = SquareWave.peak
  low : ∀ j, ∃ i ∈ Finset.Ico j (j + period), looped buffer i = -SquareWave.peak

namespace SquareWave

variable {w : SquareWave} {i tone rate : Nat}

theorem sample_periodic (w : SquareWave) : Function.Periodic w.sample w.period := by
  intro i
  rw [sample, sample, Nat.add_mod_right]

theorem sample_mod_length (w : SquareWave) (i : Nat) : w.sample (i % w.length) = w.sample i := by
  have hdvd : w.period ∣ w.length := Nat.dvd_mul_right ..
  rw [sample, sample, Nat.mod_mod_of_dvd i hdvd]

theorem sample_eq_peak_iff : w.sample i = peak ↔ i % w.period < w.period / 2 := by
  unfold sample
  split
  · exact iff_of_true rfl ‹_›
  · exact iff_of_false (by decide) ‹_›

theorem sample_eq_or (w : SquareWave) (i : Nat) : w.sample i = peak ∨ w.sample i = -peak := by
  unfold sample
  split
  · exact .inl rfl
  · exact .inr rfl

theorem samples_length (w : SquareWave) : w.samples.length = w.length := by
  rw [samples, List.length_map, List.length_range]

theorem getElem?_samples (h : i < w.length) : w.samples[i]? = some (w.sample i) := by
  rw [samples, List.getElem?_map, List.getElem?_range h, Option.map_some]

theorem looped_samples (hw : 0 < w.length) (i : Nat) : looped w.samples i = w.sample i := by
  have hi : i % w.length < w.length := Nat.mod_lt i hw
  rw [looped, samples_length, List.getD_eq_getElem?_getD, getElem?_samples hi, Option.getD_some,
    sample_mod_length]

/-! ### Samples and runs -/

/-- The samples that a list of runs stands for. -/
def spelled (runs : List (Int × Nat)) : List Int := runs.flatMap fun r => .replicate r.2 r.1

/-- One period is its two halves. -/
theorem map_sample_range (w : SquareWave) :
    (List.range w.period).map w.sample = spelled w.halves := by
  have hhalf : w.period / 2 ≤ w.period := Nat.div_le_self ..
  have hhigh : (List.range (w.period / 2)).map w.sample = .replicate (w.period / 2) peak := by
    refine List.eq_replicate_iff.mpr ⟨by rw [List.length_map, List.length_range], ?_⟩
    intro x hx
    obtain ⟨i, hi, rfl⟩ := List.mem_map.mp hx
    rw [List.mem_range] at hi
    rw [sample_eq_peak_iff, Nat.mod_eq_of_lt (Nat.lt_of_lt_of_le hi hhalf)]
    exact hi
  have hlow : (List.range (w.period - w.period / 2)).map (w.sample ∘ (w.period / 2 + ·)) =
      .replicate (w.period - w.period / 2) (-peak) := by
    refine List.eq_replicate_iff.mpr ⟨by rw [List.length_map, List.length_range], ?_⟩
    intro x hx
    obtain ⟨i, hi, rfl⟩ := List.mem_map.mp hx
    rw [List.mem_range] at hi
    show w.sample (w.period / 2 + i) = -peak
    apply (w.sample_eq_or _).resolve_left
    rw [sample_eq_peak_iff, Nat.mod_eq_of_lt (by omega)]
    omega
  calc (List.range w.period).map w.sample
      = (List.range (w.period / 2 + (w.period - w.period / 2))).map w.sample := by
        rw [Nat.add_sub_cancel' hhalf]
    _ = List.replicate (w.period / 2) peak ++ .replicate (w.period - w.period / 2) (-peak) := by
        rw [List.range_add, List.map_append, List.map_map, hhigh, hlow]
    _ = spelled w.halves := by simp [spelled, halves]

/-- One more period. -/
theorem spelled_periodRuns_succ (w : SquareWave) (k : Nat) :
    spelled (w.periodRuns (k + 1)) = spelled (w.periodRuns k) ++ spelled w.halves := by
  rw [periodRuns, List.replicate_succ', List.flatten_concat]
  exact List.flatMap_append

/-- **The samples are those that the runs of the periods stand for.** -/
theorem spelled_periodRuns (w : SquareWave) (k : Nat) :
    spelled (w.periodRuns k) = (List.range (w.period * k)).map w.sample := by
  induction k with
  | zero => rfl
  | succ k ih =>
    have hshift : w.sample ∘ (w.period * k + ·) = w.sample := by
      funext i
      rw [Function.comp, sample, sample, Nat.mul_add_mod]
    rw [spelled_periodRuns_succ, ih, ← map_sample_range, Nat.mul_succ, List.range_add,
      List.map_append, List.map_map, hshift]

/-- Their sum is taken period by period. -/
theorem sum_samples (w : SquareWave) : w.samples.sum = w.total := by
  have hperiods : ∀ k : Nat, (spelled (w.periodRuns k)).sum = k * (spelled w.halves).sum := by
    intro k
    induction k with
    | zero => simp [periodRuns, spelled]
    | succ k ih =>
      rw [spelled_periodRuns_succ, List.sum_append, ih, Int.natCast_succ, Int.add_mul, Int.one_mul]
  have hperiod : (spelled w.halves).sum =
      w.halves.foldl (fun (sum : Int) (h : Int × Nat) => sum + h.1 * h.2) 0 := by
    simp [spelled, halves, Int.mul_comm]
  rw [samples, length, ← spelled_periodRuns, hperiods, hperiod, total]

/-- **Half of a period is high**, wherever it is cut out. -/
theorem card_high (w : SquareWave) (j : Nat) :
    ((Finset.Ico j (j + w.period)).filter fun i => w.sample i = peak).card = w.period / 2 := by
  have hperiodic : Function.Periodic (fun i => w.sample i = peak) w.period := by
    intro i
    show (w.sample (i + w.period) = peak) = (w.sample i = peak)
    rw [w.sample_periodic i]
  -- it may as well be cut out at the beginning
  rw [Nat.filter_Ico_card_eq_of_periodic _ _ _ hperiodic, Nat.count_eq_card_filter_range]
  have hfirst : (Finset.range w.period).filter (fun i => w.sample i = peak) =
      Finset.range (w.period / 2) := by
    ext i
    rw [Finset.mem_filter, Finset.mem_range, Finset.mem_range, sample_eq_peak_iff]
    have hhalf : w.period / 2 ≤ w.period := Nat.div_le_self ..
    constructor
    · rintro ⟨hi, h⟩
      rwa [Nat.mod_eq_of_lt hi] at h
    · intro h
      have hi : i < w.period := Nat.lt_of_lt_of_le h hhalf
      exact ⟨hi, by rwa [Nat.mod_eq_of_lt hi]⟩
  rw [hfirst, Finset.card_range]

theorem exists_high (hp : 2 ≤ w.period) (j : Nat) :
    ∃ i ∈ Finset.Ico j (j + w.period), w.sample i = peak := by
  have hcard := w.card_high j
  have hpos : 0 < ((Finset.Ico j (j + w.period)).filter fun i => w.sample i = peak).card := by
    omega
  obtain ⟨i, hi⟩ := Finset.card_pos.mp hpos
  exact ⟨i, Finset.mem_filter.mp hi⟩

theorem exists_low (hp : 2 ≤ w.period) (j : Nat) :
    ∃ i ∈ Finset.Ico j (j + w.period), w.sample i = -peak := by
  have hcard := w.card_high j
  have hless : ((Finset.Ico j (j + w.period)).filter fun i => w.sample i = peak).card <
      (Finset.Ico j (j + w.period)).card := by
    rw [Nat.card_Ico]
    omega
  obtain ⟨i, hi, hlow⟩ := Finset.exists_mem_notMem_of_card_lt_card hless
  rw [Finset.mem_filter, not_and] at hlow
  exact ⟨i, hi, (w.sample_eq_or i).resolve_left (hlow hi)⟩

/-- **Every wave loops.** -/
theorem loops (hp : 2 ≤ w.period) (hr : 0 < w.repetitions) : Loops w.samples w.period := by
  have hw : 0 < w.length := Nat.mul_pos (Nat.lt_of_lt_of_le Nat.two_pos hp) hr
  have hlooped : looped w.samples = w.sample := funext (looped_samples hw)
  refine ⟨?whole, ?square, ?seam, ?half, ?high, ?low⟩
  case whole =>
    rw [samples_length]
    exact ⟨hw, Nat.dvd_mul_right ..⟩
  case square =>
    intro x hx
    obtain ⟨i, -, rfl⟩ := List.mem_map.mp hx
    exact w.sample_eq_or i
  case seam =>
    intro i hi
    rw [samples_length] at hi ⊢
    rw [getElem?_samples hi, getElem?_samples (Nat.mod_lt _ hw), sample_mod_length,
      w.sample_periodic i]
  all_goals rw [hlooped]
  case half => exact w.card_high
  case high => exact exists_high hp
  case low => exact exists_low hp

/-! ### Room for a wave -/

/-- The samples of a wave are counted exactly if there is room for so many, or for as many as are
counted. -/
theorem countedLength_eq (h : 8 * w.length < room ∨ 8 * w.countedLength < room) :
    w.countedLength = w.length := by
  have hone : 0 < 1 := Nat.one_pos
  have hsmall : w.length < 2 ^ 52 := by
    have hle := BinaryNumber.le_round (n := w.length) hone
    rw [Nat.one_mul] at hle
    have hroom := room_le
    unfold countedLength at h
    omega
  have hround := BinaryNumber.round_nearest hone hsmall
  rw [countedLength, hround.unique hone (nearest_nearestQuotient hone), nearestQuotient_one]

theorem lengthFault?_iff : w.lengthFault? = none ↔ 8 * w.length < room := by
  have hcounted : 8 * w.countedLength < room ↔ 8 * w.length < room :=
    ⟨fun h => countedLength_eq (.inr h) ▸ h, fun h => (countedLength_eq (.inl h)).symm ▸ h⟩
  unfold lengthFault?
  split
  · rename_i hmany
    have hno : ¬ 8 * w.countedLength < room := by
      unfold LongWord.greatest at hmany
      have hroom := room_le
      omega
    exact iff_of_false (by simp) (hcounted.not.mp hno)
  · rw [Option.map_eq_none_iff, Shape.fault?_position_iff, hcounted]

/-! ### The wave of a tone -/

/-- The wave of a tone with its period as it should be. -/
def ideal (tone rate : Nat) : SquareWave where
  period := max 2 (nearestQuotient rate tone)
  repetitions := max 1 (tone / 10)

/-- The wave of a tone with its period as it is counted. -/
def counted (tone rate : Nat) : SquareWave where
  period := max 2 (BinaryNumber.ofQuotient rate tone).round
  repetitions := max 1 (tone / 10)

theorem ofTone_natCast (ht : 0 < tone) (hr : 0 < rate) :
    ofTone tone rate = .ok w ↔ w = counted tone rate ∧
      (BinaryNumber.ofQuotient rate tone).overflows = false ∧
        (counted tone rate).lengthFault? = none := by
  have hne : (tone : Int) ≠ 0 := by omega
  have hsign : (rate : Int) < 0 ↔ (tone : Int) < 0 := by omega
  have htimes : (max 1 ((tone : Int).fdiv 10)).toNat = max 1 (tone / 10) := by
    rw [Int.fdiv_eq_ediv_of_nonneg _ (by decide)]
    omega
  unfold ofTone
  rw [if_neg hne]
  dsimp only
  rw [if_pos hsign, htimes, Int.natAbs_natCast, Int.natAbs_natCast, ← counted]
  rcases (BinaryNumber.ofQuotient rate tone).overflows with - | -
  · rcases (counted tone rate).lengthFault? with - | e
    · simp [eq_comm]
    · simp
  · simp

/-- A rate is not much greater than the number of samples of its wave. -/
theorem rate_lt {q : Nat} (h : rate ≤ tone * (q + 1))
    (hroom : 8 * (max 2 q * max 1 (tone / 10)) < room) : rate < 2 ^ 52 := by
  have htone : tone ≤ 19 * max 1 (tone / 10) := by omega
  have hperiod : q + 1 ≤ 2 * max 2 q := by omega
  have hrate : rate ≤ 38 * (max 2 q * max 1 (tone / 10)) :=
    calc rate ≤ tone * (q + 1) := h
      _ ≤ (19 * max 1 (tone / 10)) * (2 * max 2 q) := Nat.mul_le_mul htone hperiod
      _ = 38 * (max 2 q * max 1 (tone / 10)) := by grind
  have hle := room_le
  omega

/-- **Where there is room for the wave of a tone, its period is right.** -/
theorem ofTone_eq_ok_iff (ht : 0 < tone) (hr : 0 < rate) :
    ofTone tone rate = .ok w ↔ w = ideal tone rate ∧ 8 * (ideal tone rate).length < room := by
  -- a small rate is rounded once
  have hideal : rate < 2 ^ 52 → counted tone rate = ideal tone rate := by
    intro hsmall
    have hround := (BinaryNumber.round_nearest ht hsmall).unique ht (nearest_nearestQuotient ht)
    rw [counted, ideal, hround]
  rw [ofTone_natCast ht hr, lengthFault?_iff]
  constructor
  · rintro ⟨rfl, -, hroom⟩
    have hsmall : rate < 2 ^ 52 := by
      rcases BinaryNumber.le_round (n := rate) ht with h | h
      · exact rate_lt h hroom
      · -- so long a period leaves no room
        have hperiod : (BinaryNumber.ofQuotient rate tone).round ≤ (counted tone rate).period :=
          Nat.le_max_right ..
        have hlength : (counted tone rate).period ≤ (counted tone rate).length :=
          Nat.le_mul_of_pos_right _ (Nat.le_max_left ..)
        have hle := room_le
        omega
    rw [hideal hsmall] at hroom ⊢
    exact ⟨rfl, hroom⟩
  · rintro ⟨rfl, hroom⟩
    have hsmall : rate < 2 ^ 52 := rate_lt (nearest_nearestQuotient ht).le hroom
    rw [hideal hsmall]
    exact ⟨rfl, BinaryNumber.not_overflows ht hsmall, hroom⟩

/-- **The beep loops without a click.**  For a tone and a rate of at least one, let the period be
the nearest whole number of samples, and two if that is less.  There is a wave of the tone if and
only if there is room for the numbers of its samples, and then it is a tenth of a second of whole
periods, or one period, and loops. -/
theorem loops_seamlessly {tone rate : Int} (ht : 1 ≤ tone) (hr : 1 ≤ rate) :
    ∃ q, Nearest rate.toNat tone.toNat q ∧
      let period := max 2 q
      let length := period * (max 1 (tone / 10)).toNat
      ((∃ w, ofTone tone rate = .ok w) ↔ Shape.fault? ⟨[length], .position⟩ = none) ∧
      ∀ w, ofTone tone rate = .ok w → w.samples.length = length ∧ Loops w.samples period := by
  obtain ⟨tone, rfl⟩ := Int.eq_ofNat_of_zero_le (Int.le_trans Int.one_nonneg ht)
  obtain ⟨rate, rfl⟩ := Int.eq_ofNat_of_zero_le (Int.le_trans Int.one_nonneg hr)
  have ht' : 0 < tone := Int.ofNat_le.mp ht
  have hr' : 0 < rate := Int.ofNat_le.mp hr
  refine ⟨nearestQuotient rate tone, nearest_nearestQuotient ht', ?_⟩
  intro period length
  have hlength : length = (ideal tone rate).length := by
    have htimes : (max 1 ((tone : Int) / 10)).toNat = max 1 (tone / 10) := by omega
    show max 2 (nearestQuotient rate tone) * _ = _
    rw [htimes]
    rfl
  rw [Shape.fault?_position_iff, hlength]
  refine ⟨?_, ?_⟩
  · constructor
    · rintro ⟨w, hw⟩
      exact ((ofTone_eq_ok_iff ht' hr').mp hw).2
    · intro hroom
      exact ⟨_, (ofTone_eq_ok_iff ht' hr').mpr ⟨rfl, hroom⟩⟩
  · intro w hw
    obtain ⟨rfl, -⟩ := (ofTone_eq_ok_iff ht' hr').mp hw
    exact ⟨samples_length _, loops (Nat.le_max_left ..) (Nat.le_max_left ..)⟩

/-- An odd period: five samples, two of them high. -/
theorem loops_at_odd_period :
    ofTone 9 44 = .ok ⟨5, 1⟩ ∧ Loops (samples ⟨5, 1⟩) 5 ∧
      samples ⟨5, 1⟩ = [peak, peak, -peak, -peak, -peak] := by
  have hw : ofTone 9 44 = .ok ⟨5, 1⟩ :=
    (ofTone_eq_ok_iff (by decide : 0 < 9) (by decide : 0 < 44)).mpr ⟨by decide, by decide⟩
  obtain ⟨q, hq, -, hloops⟩ :=
    loops_seamlessly (by decide : (1 : Int) ≤ 9) (by decide : (1 : Int) ≤ 44)
  have hperiod : q = 5 := hq.unique (by decide) ⟨by decide, by decide⟩
  subst hperiod
  exact ⟨hw, (hloops _ hw).2, rfl⟩

/-- A tone of one hertz has no wave at a rate of `2 ^ 60`: the samples are too many. -/
theorem enormous_period_refused :
    (1 : Int) ≤ 1 ∧ (1 : Int) ≤ 1152921504606846976 ∧
      ¬ ∃ w, ofTone 1 1152921504606846976 = .ok w := by
  refine ⟨by decide, by decide, ?_⟩
  rintro ⟨w, hw⟩
  have hroom := ((ofTone_eq_ok_iff (by decide : 0 < 1)
    (by decide : 0 < 1152921504606846976)).mp hw).2
  exact absurd hroom (by decide)

end SquareWave

end ChipEight
