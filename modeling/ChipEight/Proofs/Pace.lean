/-
The pace of a run and its due times.

An activity that was due at `due` and is served at `now`, no sooner, is due again a period after
`due` or later, and later than a period before `now`:

    due + period ≤ next due,        now - period < next due.

A run keeps its pace from beginning to end, and so does the machine with the period of its timers.
`Begins c` says that a run is about to start at the pace that the configuration `c` sets for its
machine; a run that was left off can be begun again.
-/
import ChipEight.Proofs.Advance
import ChipEight.Proofs.Timers

namespace ChipEight

/-! ### Due times -/

theorem nextDue_self (due period : Int) (hp : 0 < period) :
    nextDue due period due = due + period := by
  unfold nextDue
  rw [if_pos (by omega)]

/-- What is served at `now`, not before it is due, is due again a period later or more, and later
than a period before `now`. -/
theorem nextDue_bounds {due period now : Int} (hp : 0 < period) (h : due ≤ now) :
    due + period ≤ nextDue due period now ∧ now - period < nextDue due period now := by
  unfold nextDue
  split <;> omega

/-- A rate of at least one and at most a thousand million per second has a period. -/
theorem period_bounds {rate : Int} (h : 1 ≤ rate ∧ rate ≤ second) :
    0 < second.fdiv rate ∧ second.fdiv rate ≤ second := by
  rw [Int.fdiv_eq_ediv_of_nonneg _ (by omega)]
  have hone : 1 ≤ second / rate := (Int.le_ediv_iff_mul_le (by omega)).mpr (by omega)
  exact ⟨hone, Int.ediv_le_self _ (by decide)⟩

/-- The period of a rate of at least one per second is not negative; for more than a thousand
million per second it is zero. -/
theorem period_nonneg {rate : Int} (h : 1 ≤ rate) : 0 ≤ second.fdiv rate := by
  rw [Int.fdiv_eq_ediv_of_nonneg _ (by omega)]
  exact Int.ediv_nonneg (by decide) (by omega)

namespace Run

variable {ω ε : Type} {host : Host ω ε} {r next : Run ε} {w w' : ω}

/-! ### What does not change in a run -/

/-- A step does not change the pace. -/
theorem Step.pace_eq (h : Step host r w next w') : next.pace = r.pace := by
  cases h <;> rfl

/-- A run keeps its pace. -/
theorem after_pace (host : Host ω ε) (r : Run ε) (w : ω) (n : Nat) :
    (r.after host n w).1.pace = r.pace :=
  after_of_step (P := fun r' _ => r'.pace = r.pace) (fun h hr => h.pace_eq.trans hr) rfl n

/-- A step does not change the period of the timers. -/
theorem Step.period_eq (h : Step host r w next w') :
    next.machine.timers.period = r.machine.timers.period := by
  cases h with
  | ticked _ e =>
    have ht := r.machine.tick_timers.1
    rw [e] at ht
    exact ht
  | halted _ e =>
    have ht := r.machine.tick_timers.1
    rw [e] at ht
    exact ht
  | checked _ hm _ =>
    subst hm
    rfl
  | toneFailed _ hm _ =>
    subst hm
    rfl
  | _ => rfl

theorem Step.paceOf_eq {c : Config} (h : Step host r w next w') :
    Pace.of c next.machine = Pace.of c r.machine := by
  rw [Pace.of, Pace.of, h.period_eq]

/-! ### Runs about to start -/

/-- A run that is about to start, at the pace that a configuration sets for its machine. -/
structure Begins (c : Config) (r : Run ε) : Prop where
  phase : r.phase = .start
  pace : r.pace = .of c r.machine

theorem begins_fresh (c : Config) (m : Machine) (limit : Option Int) :
    (fresh c m limit : Run ε).Begins c :=
  ⟨rfl, rfl⟩

/-- Whenever a run is left off, another one can be begun. -/
theorem Begins.again {c : Config} (h : r.Begins c) (n : Nat) (limit : Option Int) :
    ((r.after host n w).1.again limit).Begins c :=
  ⟨rfl, after_of_step (P := fun r _ => r.pace = .of c r.machine)
    (fun hs hr => by rw [hs.pace_eq, hs.paceOf_eq, hr]) h.pace n⟩

end Run

end ChipEight
