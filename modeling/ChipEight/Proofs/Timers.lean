/-
What a tick does to the timers.

There are two timers, and each is written by one instruction: `Fx15` writes the delay timer and
`Fx18` the sound timer.  A tick that executes it loads the timer with the register; every other
tick leaves the timer alone (`tick_timers`).  The period of the timers never changes.
-/
import ChipEight.Proofs.Control

namespace ChipEight

/-- The two timers. -/
inductive Timer
  | delay
  | sound
  deriving DecidableEq, Repr

/-- The countdown of a timer. -/
def Timers.countdown (ts : Timers) : Timer → Countdown
  | .delay => ts.delay
  | .sound => ts.sound

theorem Timers.countdown_check (ts : Timers) (now : Int) (t : Timer) :
    (ts.check now).countdown t = (ts.countdown t).check ts.period now := by
  cases t <;> rfl

/-- The register that an instruction writes into a timer. -/
def Instruction.source? (t : Timer) (i : Instruction) : Option Int :=
  match t, i with
  | .delay, setDelay x => some x
  | .sound, setSound x => some x
  | _, _ => none

namespace Machine

variable {m : Machine} {i : Instruction}

/-- What the next tick writes into a timer, if it writes one. -/
def written? (t : Timer) (m : Machine) : Option Int :=
  match m.tick.1 with
  | .ok (some i) => (i.source? t).map m.reg
  | _ => none

theorem written?_bounds {t : Timer} {v : Int} (h : m.written? t = some v) : 0 ≤ v ∧ v ≤ 255 := by
  unfold written? at h
  split at h
  · obtain ⟨x, -, rfl⟩ := Option.map_eq_some_iff.mp h
    exact m.reg_bounds x
  · cases h

/-- The timers after an instruction. -/
theorem perform_timers (i : Instruction) (m : Machine) :
    (m.perform i).2.timers.period = m.timers.period ∧
      ∀ t, (m.perform i).2.timers.countdown t =
        (((i.source? t).map m.reg).map .load).getD (m.timers.countdown t) := by
  cases i with
  | setDelay x => exact ⟨rfl, fun t => by cases t <;> rfl⟩
  | setSound x => exact ⟨rfl, fun t => by cases t <;> rfl⟩
  | ret | call a | draw x y height | addByte x k | awaitKey x =>
    simp only [perform]
    split <;> exact ⟨rfl, fun t => by cases t <;> rfl⟩
  | skipEqualByte x k | skipUnequalByte x k | skipEqual x y | skipUnequal x y | skipHeld x
  | skipReleased x =>
    simp only [perform, skipIf]
    split <;> exact ⟨rfl, fun t => by cases t <;> rfl⟩
  | _ => exact ⟨rfl, fun t => by cases t <;> rfl⟩

@[simp] theorem settle_timers (m : Machine) : m.settle.timers = m.timers := by
  unfold settle
  split <;> rfl

/-- **What a tick does to the timers.** -/
theorem tick_timers (m : Machine) :
    m.tick.2.timers.period = m.timers.period ∧
      ∀ t, m.tick.2.timers.countdown t =
        ((m.written? t).map .load).getD (m.timers.countdown t) := by
  have h := m.ticked
  unfold written?
  rcases e : m.tick with ⟨r, n⟩
  rw [e] at h
  cases h with
  | outOfBounds _ => exact ⟨rfl, fun _ => rfl⟩
  | unknown _ _ => exact ⟨rfl, fun _ => rfl⟩
  | refused _ _ _ => exact ⟨rfl, fun _ => rfl⟩
  | @performed w i m' _ _ hp =>
    have ht := perform_timers i m
    rw [hp] at ht
    rw [settle_timers]
    exact ht

end Machine

end ChipEight
