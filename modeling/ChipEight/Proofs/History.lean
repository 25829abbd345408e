/-
What happens in a run, in order.

A note is read off the state before a step; the notes of the first `n` steps of a run are a
list, the earliest first:

    noted (n + 1) = noted n ++ [note of step n, if there is one].

Four such lists are kept: the times of the passes, of the ticks, of the polls and of the pictures
shown.  What a step asks of the frontend can be read off the state before it, too (`call?`), and
a host that keeps a log finds just these calls in it (`after_logged`).  So each step makes the log
longer by its call (`log_succ`), and the polls in the log are as many as were noted.

An invariant of a run and of its notes is proved of single steps (`noted_of_step`).  The run goes
round without resting: of any eight steps one begins a pass, as long as the run is not on its way
out (`passes_go_on`).
-/
import ChipEight.Proofs.Advance

namespace ChipEight

/-- What a run asks of the frontend. -/
inductive Call
  | poll (keys : Keypad)
  | render (p : Picture)
  | setTone (on : Bool)
  deriving DecidableEq, Repr

/-- Whether a call asks for the keys. -/
def Call.isPoll : Call → Bool
  | .poll _ => true
  | .render _ | .setTone _ => false

/-- How far a phase is behind the beginning of a pass, in steps; a run that starts or that is on
its way out has not come to one. -/
def Phase.age {ε : Type} : Phase ε → Nat
  | .start | .silence _ | .over _ => 0
  | .execute => 1
  | .sound => 2
  | .draw => 3
  | .measure => 4
  | .sleep _ => 5
  | .look => 6
  | .poll => 7

theorem Phase.age_le {ε : Type} (p : Phase ε) : p.age ≤ 7 := by
  cases p <;> simp [age]

namespace Host

variable {ω ε : Type}

/-- The same outside, with a log of what was asked of the frontend, the earliest first. -/
def logged (host : Host ω ε) : Host (ω × List Call) ε where
  read := fun (w, log) => ((host.read w).1, (host.read w).2, log)
  sleep := fun delay (w, log) => ((host.sleep delay w).1, (host.sleep delay w).2, log)
  poll := fun keys (w, log) =>
    ((host.poll keys w).1, (host.poll keys w).2, log ++ [.poll keys])
  render := fun p (w, log) => ((host.render p w).1, (host.render p w).2, log ++ [.render p])
  setTone := fun on (w, log) =>
    ((host.setTone on w).1, (host.setTone on w).2, log ++ [.setTone on])

variable (host : Host ω ε) (w : ω) (log : List Call)

@[simp] theorem logged_read :
    host.logged.read (w, log) = ((host.read w).1, (host.read w).2, log) := rfl

@[simp] theorem logged_sleep (delay : Int) :
    host.logged.sleep delay (w, log) =
      ((host.sleep delay w).1, (host.sleep delay w).2, log) := rfl

@[simp] theorem logged_poll (keys : Keypad) :
    host.logged.poll keys (w, log) =
      ((host.poll keys w).1, (host.poll keys w).2, log ++ [.poll keys]) := rfl

@[simp] theorem logged_render (p : Picture) :
    host.logged.render p (w, log) =
      ((host.render p w).1, (host.render p w).2, log ++ [.render p]) := rfl

@[simp] theorem logged_setTone (on : Bool) :
    host.logged.setTone on (w, log) =
      ((host.setTone on w).1, (host.setTone on w).2, log ++ [.setTone on]) := rfl

end Host

namespace Run

variable {ω ε α : Type} {host : Host ω ε} {r next : Run ε} {w w' : ω}

/-- What is noted of the first steps of a run, the earliest first. -/
def noted (note : Run ε → Option α) (host : Host ω ε) (r : Run ε) (w : ω) : Nat → List α
  | 0 => []
  | n + 1 => r.noted note host w n ++ (note (r.after host n w).1).toList

/-- **What every step keeps of a run and its notes of two kinds, every run keeps.** -/
theorem noted_of_step₂ {β : Type} (note : Run ε → Option α) (note' : Run ε → Option β)
    {P : List α → List β → Run ε → ω → Prop}
    (hstep : ∀ {l l' r w next w'}, Step host r w next w' → P l l' r w →
      P (l ++ (note r).toList) (l' ++ (note' r).toList) next w')
    (h : P [] [] r w) (n : Nat) :
    P (r.noted note host w n) (r.noted note' host w n) (r.after host n w).1
      (r.after host n w).2 := by
  induction n with
  | zero => exact h
  | succ n ih =>
    rw [after_succ]
    exact hstep (advance_step ..) ih

/-- The same for notes of one kind. -/
theorem noted_of_step {note : Run ε → Option α} {P : List α → Run ε → ω → Prop}
    (hstep : ∀ {l r w next w'}, Step host r w next w' → P l r w →
      P (l ++ (note r).toList) next w')
    (h : P [] r w) (n : Nat) :
    P (r.noted note host w n) (r.after host n w).1 (r.after host n w).2 :=
  noted_of_step₂ note note (P := fun l _ r w => P l r w) hstep h n

/-! ### Calls of the frontend -/

/-- What the next step of a run asks of the frontend, if anything. -/
def call? (r : Run ε) : Option Call :=
  match r.phase with
  | .poll => if r.now < r.nextTick then none else some (.poll r.machine.keys)
  | .sound =>
    let on := (r.machine.checkTimers r.now).timers.soundOn
    if r.tone = on then none else some (.setTone on)
  | .draw =>
    if r.now < r.nextFrame then none
    else if r.machine.screen.dirty then some (.render r.machine.screen.pixels)
    else none
  | .silence _ => if r.tone = false then none else some (.setTone false)
  | _ => none

theorem tell_logged (host : Host ω ε) (on : Bool) (r : Run ε) (w : ω) (log : List Call) :
    r.tell host.logged on (w, log) =
      ((r.tell host on w).1, (r.tell host on w).2.1, (r.tell host on w).2.2,
        log ++ (if r.tone = on then none else some (.setTone on)).toList) := by
  unfold tell
  split
  · simp
  · rfl

/-- A host with a log finds in it what the step asks for, and goes on as without it. -/
theorem advance_logged (host : Host ω ε) (r : Run ε) (w : ω) (log : List Call) :
    r.advance host.logged (w, log) =
      ((r.advance host w).1, (r.advance host w).2, log ++ r.call?.toList) := by
  unfold advance call?
  rcases hp : r.phase with - | - | - | - | - | - | - | delay | o | o <;> dsimp only
  · simp [begin]
  · unfold look
    split <;> simp
  · unfold poll
    split
    · simp
    · rcases e : host.poll r.machine.keys w with ⟨⟨e' | - | -, keys⟩, w'⟩ <;> simp [e]
  · simp
  · unfold sound
    dsimp only
    rw [tell_logged]
    rcases ({ r with machine := r.machine.checkTimers r.now } : Run ε).tell host
      (r.machine.checkTimers r.now).timers.soundOn w with ⟨e' | ⟨⟩, r', w'⟩
    · rfl
    · dsimp only
      split <;> rfl
  · unfold draw
    split
    · simp
    · dsimp only
      split
      · rcases e : host.render r.machine.screen.pixels w with ⟨e' | ⟨⟩, w'⟩ <;> simp [e]
      · simp
  · simp [measure]
  · unfold rest
    rcases e : host.sleep delay w with ⟨e' | ⟨⟩, w'⟩ <;> simp [e]
  · unfold silence
    rw [tell_logged]
    rcases r.tell host false w with ⟨e' | ⟨⟩, r', w'⟩ <;> rfl
  · simp

/-- **A host with a log finds the calls of the run in it.** -/
theorem after_logged (host : Host ω ε) (r : Run ε) (w : ω) (log : List Call) (n : Nat) :
    r.after host.logged n (w, log) =
      ((r.after host n w).1, (r.after host n w).2, log ++ r.noted call? host w n) := by
  induction n with
  | zero => simp [after, noted]
  | succ n ih =>
    rw [after_succ, after_succ, ih]
    dsimp only
    rw [advance_logged, List.append_assoc]
    rfl

/-- The log of a host after the first steps of a run. -/
def log (host : Host ω ε) (r : Run ε) (w : ω) (n : Nat) : List Call :=
  (r.after host.logged n (w, [])).2.2

theorem log_eq_noted (host : Host ω ε) (r : Run ε) (w : ω) (n : Nat) :
    r.log host w n = r.noted call? host w n := by
  rw [log, after_logged]
  rfl

/-- **A step makes the log longer by the call that it makes.** -/
theorem log_succ (host : Host ω ε) (r : Run ε) (w : ω) (n : Nat) :
    r.log host w (n + 1) = r.log host w n ++ (r.after host n w).1.call?.toList := by
  rw [log_eq_noted, log_eq_noted, noted]

theorem log_succ_iff {n : Nat} {c : Call} :
    r.log host w (n + 1) = r.log host w n ++ [c] ↔ (r.after host n w).1.call? = some c := by
  rw [log_succ, List.append_cancel_left_eq, Option.toList_eq_singleton_iff]

/-! ### Times -/

/-- The time of the pass that the next step takes up. -/
def passTime? (r : Run ε) : Option Int :=
  match r.phase with
  | .poll => some r.now
  | _ => none

/-- The time of the pass in which the next step performs a tick. -/
def tickTime? (r : Run ε) : Option Int :=
  match r.phase with
  | .execute => some r.now
  | _ => none

/-- The time of the pass in which the next step asks for the keys. -/
def pollTime? (r : Run ε) : Option Int :=
  match r.call? with
  | some (.poll _) => some r.now
  | _ => none

/-- The time of the pass in which the next step shows a picture. -/
def frameTime? (r : Run ε) : Option Int :=
  match r.call? with
  | some (.render _) => some r.now
  | _ => none

theorem call?_eq_poll_iff {keys : Keypad} : r.call? = some (.poll keys) ↔
    r.phase = .poll ∧ r.nextTick ≤ r.now ∧ r.machine.keys = keys := by
  unfold call?
  rcases hp : r.phase with - | - | - | - | - | - | - | delay | o | o <;> simp

theorem call?_eq_render_iff {p : Picture} : r.call? = some (.render p) ↔
    r.phase = .draw ∧ r.nextFrame ≤ r.now ∧ r.machine.screen.dirty = true ∧
      r.machine.screen.pixels = p := by
  unfold call?
  rcases hp : r.phase with - | - | - | - | - | - | - | delay | o | o <;> simp

theorem passTime?_eq_some_iff {t : Int} : r.passTime? = some t ↔ r.phase = .poll ∧ r.now = t := by
  unfold passTime?
  rcases hp : r.phase with - | - | - | - | - | - | - | delay | o | o <;> simp

theorem tickTime?_eq_some_iff {t : Int} :
    r.tickTime? = some t ↔ r.phase = .execute ∧ r.now = t := by
  unfold tickTime?
  rcases hp : r.phase with - | - | - | - | - | - | - | delay | o | o <;> simp

theorem pollTime?_eq_some_iff {t : Int} :
    r.pollTime? = some t ↔ (r.phase = .poll ∧ r.nextTick ≤ r.now) ∧ r.now = t := by
  unfold pollTime?
  split
  · rename_i keys h
    obtain ⟨hp, hdue, -⟩ := call?_eq_poll_iff.mp h
    simp [hp, hdue]
  · rename_i h
    refine iff_of_false nofun ?_
    rintro ⟨⟨hp, hdue⟩, -⟩
    exact h _ (call?_eq_poll_iff.mpr ⟨hp, hdue, rfl⟩)

/-- There are as many polls in the log as were noted. -/
theorem countP_isPoll_log (host : Host ω ε) (r : Run ε) (w : ω) (n : Nat) :
    (r.log host w n).countP Call.isPoll = (r.noted pollTime? host w n).length := by
  induction n with
  | zero => rfl
  | succ n ih =>
    rw [log_succ, List.countP_append, ih, noted, List.length_append, pollTime?]
    rcases (r.after host n w).1.call? with - | ⟨keys | p | on⟩ <;> rfl

theorem frameTime?_eq_some_iff {t : Int} :
    r.frameTime? = some t ↔
      (r.phase = .draw ∧ r.nextFrame ≤ r.now ∧ r.machine.screen.dirty = true) ∧ r.now = t := by
  unfold frameTime?
  split
  · rename_i p h
    obtain ⟨hp, hdue, hdirty, -⟩ := call?_eq_render_iff.mp h
    simp [hp, hdue, hdirty]
  · rename_i h
    refine iff_of_false nofun ?_
    rintro ⟨⟨hp, hdue, hdirty⟩, -⟩
    exact h _ (call?_eq_render_iff.mpr ⟨hp, hdue, hdirty, rfl⟩)

/-- The time of a pass is noted under a condition, and only then. -/
theorem isSome_iff_of_note {note : Option Int} {c : Prop} {now : Int}
    (h : ∀ {t}, note = some t ↔ c ∧ now = t) : note.isSome ↔ c := by
  rw [Option.isSome_iff_exists]
  exact ⟨fun ⟨_, e⟩ => (h.mp e).1, fun hc => ⟨now, h.mpr ⟨hc, rfl⟩⟩⟩

theorem eq_none_of_note {note : Option Int} {c : Prop} {now : Int}
    (h : ∀ {t}, note = some t ↔ c ∧ now = t) (hc : ¬ c) : note = none := by
  rw [← isSome_iff_of_note h, Option.not_isSome_iff_eq_none] at hc
  exact hc

/-! ### Passes go on -/

/-- A pass is complete with the step that may show the picture. -/
theorem Step.draw_of_measure (h : Step host r w next w') (hm : next.phase = .measure) :
    r.phase = .draw := by
  cases h with
  | noFrame hp _ | clean hp _ _ | drawn hp _ _ _ => exact hp
  | ended hp => rw [hp] at hm; cases hm
  | _ => cases hm

/-- The run is on its way out, or has ended. -/
def Leaving (r : Run ε) : Prop := ∃ o, r.phase = .silence o ∨ r.phase = .over o

/-- A run that leaves does not come back. -/
theorem Step.leaving (h : Step host r w next w') (hr : r.Leaving) : next.Leaving := by
  obtain ⟨o, hp | hp⟩ := hr <;> cases h with
  | silenced | silenceFailed => exact ⟨_, .inr rfl⟩
  | ended he => exact ⟨_, .inr he⟩
  | _ => simp_all

/-- A run that leaves is over with the next step. -/
theorem Step.over_of_leaving (h : Step host r w next w') (hr : r.Leaving) :
    next.outcome?.isSome := by
  obtain ⟨o, hp | hp⟩ := hr <;> cases h with
  | silenced | silenceFailed => rfl
  | ended he => rw [outcome?, he]; rfl
  | _ => simp_all

/-- A step that does not leave the loop comes nearer to the next pass, or begins it. -/
theorem Step.age_lt (h : Step host r w next w') (hr : ¬ r.Leaving) :
    next.Leaving ∨ r.phase.age < next.phase.age + 8 * r.passTime?.toList.length := by
  cases h with
  -- the ways out of the loop
  | exhausted | quit | pollFailed | halted | toneFailed | drawFailed | sleepFailed =>
    exact .inl ⟨_, .inl rfl⟩
  | silenced hp _ | silenceFailed hp _ => exact absurd ⟨_, .inl hp⟩ hr
  | ended hp => exact absurd ⟨_, .inr hp⟩ hr
  | _ hp => exact .inr (by simp [Phase.age, passTime?, hp])

/-- **Passes go on.**  Of any eight steps one begins a pass, until the run leaves. -/
theorem passes_go_on (host : Host ω ε) (r : Run ε) (w : ω) (n : Nat) :
    (r.after host n w).1.Leaving ∨
      n ≤ (r.after host n w).1.phase.age + 8 * (r.noted passTime? host w n).length := by
  induction n with
  | zero => exact .inr (Nat.zero_le _)
  | succ n ih =>
    rw [after_succ]
    by_cases hr : (r.after host n w).1.Leaving
    · exact .inl ((advance_step ..).leaving hr)
    · refine ((advance_step ..).age_lt hr).imp_right fun hage => ?_
      have hn := ih.resolve_left hr
      rw [noted, List.length_append]
      omega

end Run

end ChipEight
