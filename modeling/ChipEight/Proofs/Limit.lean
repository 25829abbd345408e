/-
Runs with a limit.

A run with the limit `n` goes on as long as it has made fewer than `n` ticks, and it is asked so
before every pass:

    look: cycles ≤ n,      poll: cycles < n,      cycle limit: cycles = n.

A limit below zero is as good as zero.
-/
import ChipEight.Proofs.Advance

namespace ChipEight.Run

variable {ω ε : Type} {host : Host ω ε} {r next : Run ε} {w w' : ω} {limit : Int}

theorem Step.limit_eq (h : Step host r w next w') : next.limit = r.limit := by
  cases h <;> rfl

/-- How many ticks a run with a limit has made in every phase, and what it reports. -/
def Within (limit : Int) (r : Run ε) : Prop :=
  r.limit = some limit ∧
  match r.phase with
  | .start => True
  | .look | .sound | .draw | .measure | .sleep _ => r.cycles ≤ limit.toNat
  | .poll | .execute => r.cycles < limit.toNat
  | .silence o | .over o => ∀ report, o = .ok report →
      if report.reason = .cycleLimit then report.cycles = limit.toNat
      else report.cycles < limit.toNat

theorem ofHalt_ne_cycleLimit (h : Halt) : Reason.ofHalt h ≠ .cycleLimit := by
  cases h <;> nofun

theorem exhausted_iff (h : r.limit = some limit) :
    r.exhausted = true ↔ limit ≤ r.cycles := by
  simp [exhausted, h]

/-- **A step keeps to the limit.** -/
theorem Step.within (h : Step host r w next w') (hr : r.Within limit) : next.Within limit := by
  obtain ⟨hlimit, hcycles⟩ := hr
  cases h with
  | begin => exact ⟨hlimit, Nat.zero_le _⟩
  | exhausted hp hx =>
    rw [hp] at hcycles
    rw [exhausted_iff hlimit] at hx
    refine ⟨hlimit, fun report e => ?_⟩
    obtain rfl := Except.ok.inj e
    exact (if_pos rfl).mpr (show r.cycles = limit.toNat by omega)
  -- the question before the pass leaves room for one more tick
  | look hp hx _ =>
    have hlt : ¬ limit ≤ r.cycles := by
      rw [← exhausted_iff hlimit, hx]
      nofun
    exact ⟨hlimit, show r.cycles < limit.toNat by omega⟩
  | noTick hp _ =>
    rw [hp] at hcycles
    exact ⟨hlimit, Nat.le_of_lt hcycles⟩
  | polled hp _ _ | ticked hp _ | checked hp _ _ | noFrame hp _ | clean hp _ _ | drawn hp _ _ _
  | pause hp _ _ | noPause hp _ _ | slept hp _ =>
    rw [hp] at hcycles
    exact ⟨hlimit, hcycles⟩
  | quit hp _ _ =>
    rw [hp] at hcycles
    refine ⟨hlimit, fun report e => ?_⟩
    obtain rfl := Except.ok.inj e
    exact (if_neg nofun).mpr hcycles
  | @halted halt _ hp _ =>
    rw [hp] at hcycles
    refine ⟨hlimit, fun report e => ?_⟩
    obtain rfl := Except.ok.inj e
    exact (if_neg (ofHalt_ne_cycleLimit halt)).mpr hcycles
  | pollFailed | toneFailed | drawFailed | sleepFailed | silenceFailed => exact ⟨hlimit, nofun⟩
  | silenced hp _ =>
    rw [hp] at hcycles
    exact ⟨hlimit, hcycles⟩
  | ended => exact ⟨hlimit, hcycles⟩

end ChipEight.Run
