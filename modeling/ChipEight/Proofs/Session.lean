/-
The keys that a tick sees, over all the runs of a machine.

A session is a machine with a frontend, and the runs that are made of it one after the other.  If
no key is held when it starts, every tick sees the keys of its own poll and no others:

    held at the tick  =  scripted for the poll just before it.

After a tick the keys are let go.  A poll that ends its run has no tick after it, and nobody lets
go of the keys that it pressed (`quitting_leaves_keys_held`).  No tick sees them: the user who has
left has left for good, and later runs of the session end with their first poll.

Main result: `Session.own_keys`.
-/
import ChipEight.Host.Bench
import ChipEight.Proofs.Advance
import ChipEight.Proofs.Decoding

namespace ChipEight

/-! ### Keys -/

namespace Keypad

variable {p q : Keypad}

theorem isHeld_released (key : Int) : released.isHeld key = false := by
  unfold isHeld released
  split <;> simp

theorem isHeld_press {key : Int} (h : p.press key = .ok q) (k : Int) :
    q.isHeld k = true ↔ p.isHeld k = true ∨ Word.digit key = k := by
  have hkey : 0 ≤ Word.digit key ∧ Word.digit key < 16 := by
    unfold Word.digit
    omega
  unfold press at h
  split at h
  · obtain rfl := Except.ok.inj h
    unfold isHeld
    by_cases hk : 0 ≤ k ∧ k < 16
    · rw [dif_pos hk, dif_pos hk, Vector.getElem_set]
      split
      · exact iff_of_true rfl (.inr (by omega))
      · exact (or_iff_left (by omega)).symm
    · rw [dif_neg hk, dif_neg hk]
      exact (or_iff_left (by omega)).symm
  · cases h

/-- The keys that are held after pressing some more. -/
theorem isHeld_pressAll {keys : List Int} (h : p.pressAll keys = (.ok (), q)) (k : Int) :
    q.isHeld k = true ↔ p.isHeld k = true ∨ ∃ key ∈ keys, Word.digit key = k := by
  induction keys generalizing p with
  | nil =>
    obtain rfl : p = q := (Prod.mk.inj h).2
    simp
  | cons key keys ih =>
    rw [pressAll] at h
    rcases e : p.press key with e' | p'
    · rw [e] at h
      cases h
    · rw [e] at h
      simp only [ih h, isHeld_press e, or_assoc, List.mem_cons, exists_eq_or_imp]

/-- Whether keys can be pressed does not depend on those that are held. -/
theorem pressAll_answer (p q : Keypad) (keys : List Int) :
    (p.pressAll keys).1 = (q.pressAll keys).1 := by
  induction keys generalizing p q with
  | nil => rfl
  | cons key keys ih =>
    unfold pressAll press
    by_cases h : -16 ≤ key ∧ key < 16
    · rw [if_pos h, if_pos h]
      exact ih ..
    · rw [if_neg h, if_neg h]

end Keypad

/-! ### A frontend without a window -/

namespace Headless

variable {f g : Headless}

/-- The next poll is refused. -/
def Refuses (f : Headless) : Prop :=
  f.script.failAt = some (f.polls : Int) ∨ f.script.interruptAt = some (f.polls : Int) ∨
    (Keypad.released.pressAll f.scripted).1 ≠ .ok ()

/-- The frontend after a poll that was answered. -/
def polled (f : Headless) : Headless := { f with polls := f.polls + 1 }

/-- A poll that is refused is not counted. -/
theorem poll_of_refuses (h : f.Refuses) (keys : Keypad) :
    (∃ e, (f.poll keys).1.1 = .error e) ∧ (f.poll keys).2 = f := by
  unfold poll
  split
  · exact ⟨⟨_, rfl⟩, rfl⟩
  · split
    · exact ⟨⟨_, rfl⟩, rfl⟩
    · rename_i hfail hinterrupt
      have hpress := (h.resolve_left hfail).resolve_left hinterrupt
      rw [Keypad.pressAll_answer _ keys] at hpress
      rcases e : keys.pressAll f.scripted with ⟨e' | ⟨⟩, keys'⟩
      · exact ⟨⟨_, rfl⟩, rfl⟩
      · rw [e] at hpress
        exact absurd rfl hpress

/-- A poll that is not refused presses the keys of the script. -/
theorem poll_of_not_refuses (h : ¬ f.Refuses) (keys : Keypad) :
    (keys.pressAll f.scripted).1 = .ok () ∧
      f.poll keys = ((.ok f.polled.quits, (keys.pressAll f.scripted).2), f.polled) := by
  simp only [Refuses, not_or, Classical.not_not] at h
  obtain ⟨hfail, hinterrupt, hpress⟩ := h
  rw [Keypad.pressAll_answer _ keys] at hpress
  refine ⟨hpress, ?_⟩
  unfold poll
  rw [if_neg hfail, if_neg hinterrupt]
  rcases e : keys.pressAll f.scripted with ⟨e' | ⟨⟩, keys'⟩
  · rw [e] at hpress
    cases hpress
  · rfl

/-- Who wants to quit does not change his mind with more polls and pictures. -/
theorem quits_mono (hscript : g.script = f.script) (hpolls : f.polls ≤ g.polls)
    (hframes : f.frames.size ≤ g.frames.size) (h : f.quits = true) : g.quits = true := by
  simp only [quits, hscript, Bool.or_eq_true, Option.any_eq_true, decide_eq_true_eq] at h ⊢
  rcases h with ⟨n, hn, hlt⟩ | ⟨n, hn, hle⟩
  · exact .inl ⟨n, hn, by omega⟩
  · exact .inr ⟨n, hn, by omega⟩

/-- The user has left: no poll is answered by going on. -/
def Left (f : Headless) : Prop := ∀ keys, (f.poll keys).1.1 ≠ .ok false

theorem left_iff : f.Left ↔ f.Refuses ∨ f.polled.quits = true := by
  by_cases h : f.Refuses
  · refine iff_of_true (fun keys => ?_) (.inl h)
    obtain ⟨⟨e, he⟩, -⟩ := poll_of_refuses h keys
    rw [he]
    nofun
  · have hquits (keys : Keypad) : (f.poll keys).1.1 ≠ .ok false ↔ f.polled.quits = true := by
      rw [(poll_of_not_refuses h keys).2]
      simp
    rw [or_iff_right h]
    exact ⟨fun hl => (hquits .released).mp (hl .released), fun hq keys => (hquits keys).mpr hq⟩

/-- After a poll that is not answered by going on, the user has left. -/
theorem left_of_poll {keys : Keypad} (h : (f.poll keys).1.1 ≠ .ok false) :
    (f.poll keys).2.Left := by
  by_cases hr : f.Refuses
  · rw [(poll_of_refuses hr keys).2, left_iff]
    exact .inl hr
  · rw [(poll_of_not_refuses hr keys).2] at h ⊢
    have hquits : f.polled.quits = true := by simpa using h
    show f.polled.Left
    rw [left_iff]
    exact .inr (quits_mono (f := f.polled) rfl (Nat.le_succ _) (Nat.le_refl _) hquits)

theorem Left.render (h : f.Left) (p : Picture) : (f.render p).Left := by
  rw [left_iff] at h ⊢
  have hframes : f.polled.frames.size ≤ (f.render p).polled.frames.size := by
    simp [Headless.render, polled]
  exact h.imp id (quits_mono (f := f.polled) rfl (Nat.le_refl _) hframes)

theorem Left.setTone (h : f.Left) (on : Bool) : (f.setTone on).Left := by
  rw [left_iff] at h ⊢
  unfold Headless.setTone
  split <;> exact h

end Headless

/-- The outside has a frontend without a window. -/
structure Host.Windowless {ω : Type} (host : Host ω Mishap) (frontend : ω → Headless) :
    Prop where
  read {w t w'} : host.read w = (t, w') → frontend w' = frontend w
  sleep {delay w answer w'} : host.sleep delay w = (answer, w') → frontend w' = frontend w
  poll {keys w answer w'} : host.poll keys w = (answer, w') →
    (frontend w).poll keys = (answer, frontend w')
  render {picture w answer w'} : host.render picture w = (answer, w') →
    frontend w' = (frontend w).render picture
  setTone {on w answer w'} : host.setTone on w = (answer, w') →
    frontend w' = (frontend w).setTone on

theorem Bench.windowless : host.Windowless Bench.frontend where
  read := by
    rintro b _ _ ⟨⟩
    rfl
  sleep := by
    rintro delay b _ _ ⟨⟩
    rfl
  poll := by
    rintro keys b _ _ ⟨⟩
    rfl
  render := by
    rintro picture b _ _ ⟨⟩
    rfl
  setTone := by
    rintro on b _ _ ⟨⟩
    rfl

namespace Run

/-! ### Sessions -/

/-- What becomes of a run that is played, and begun again with another limit whenever it is
over. -/
inductive Session {ω ε : Type} (host : Host ω ε) (r₀ : Run ε) (w₀ : ω) : Run ε → ω → Prop
  | start : Session host r₀ w₀ r₀ w₀
  | step {r w} : Session host r₀ w₀ r w →
      Session host r₀ w₀ (r.advance host w).1 (r.advance host w).2
  | again {r w} (limit : Option Int) : Session host r₀ w₀ r w → r.outcome?.isSome →
      Session host r₀ w₀ (r.again limit) w

/-- **What every step and every new beginning keeps, every session keeps.** -/
theorem Session.of_step {ω ε : Type} {host : Host ω ε} {r₀ r : Run ε} {w₀ w : ω}
    {P : Run ε → ω → Prop} (h : Session host r₀ w₀ r w)
    (hstep : ∀ {r w next w'}, Step host r w next w' → P r w → P next w')
    (hagain : ∀ {r w limit}, r.outcome?.isSome → P r w → P (r.again limit) w)
    (hstart : P r₀ w₀) : P r w := by
  induction h with
  | start => exact hstart
  | step _ ih => exact hstep (advance_step ..) ih
  | again limit _ hover ih => exact hagain hover ih

theorem Session.after {ω ε : Type} {host : Host ω ε} {r₀ r : Run ε} {w₀ w : ω}
    (h : Session host r₀ w₀ r w) (n : Nat) :
    Session host r₀ w₀ (r.after host n w).1 (r.after host n w).2 := by
  induction n with
  | zero => exact h
  | succ n ih =>
    rw [after_succ]
    exact ih.step

theorem session_after {ω ε : Type} (host : Host ω ε) (r : Run ε) (w : ω) (n : Nat) :
    Session host r w (r.after host n w).1 (r.after host n w).2 := Session.start.after n

variable {ω : Type} {host : Host ω Mishap} {frontend : ω → Headless}
variable {r r₀ next : Run Mishap} {w w₀ w' : ω}

theorem ne_execute_of_over {ε : Type} {r : Run ε} (h : r.outcome?.isSome) :
    r.phase ≠ .execute := by
  intro hp
  rw [outcome?, hp] at h
  cases h

theorem Told.frontend_eq (hf : host.Windowless frontend) {tone on : Bool}
    {answer : Except Mishap Unit} (h : Told host tone on w answer w') :
    frontend w' = frontend w ∨ frontend w' = (frontend w).setTone on := by
  cases h with
  | same _ => exact .inl rfl
  | news _ e => exact .inr (hf.setTone e)

theorem Told.left (hf : host.Windowless frontend) {tone on : Bool}
    {answer : Except Mishap Unit} (h : Told host tone on w answer w') (hl : (frontend w).Left) :
    (frontend w').Left := by
  rcases h.frontend_eq hf with e | e
  · rw [e]
    exact hl
  · rw [e]
    exact hl.setTone on

/-- A user who has left does not come back. -/
theorem Step.left (hf : host.Windowless frontend) (h : Step host r w next w')
    (hl : (frontend w).Left) : (frontend w').Left := by
  cases h with
  | begin _ e | look _ _ e | pause _ e _ | noPause _ e _ =>
    rw [hf.read e]
    exact hl
  | slept _ e | sleepFailed _ e =>
    rw [hf.sleep e]
    exact hl
  | polled _ _ e | quit _ _ e | pollFailed _ _ e =>
    have hpoll := Headless.left_of_poll (hl r.machine.keys)
    rw [hf.poll e] at hpoll
    exact hpoll
  | drawn _ _ _ e | drawFailed _ _ _ e =>
    rw [hf.render e]
    exact hl.render _
  | checked _ _ htold | toneFailed _ _ htold | silenced _ htold | silenceFailed _ htold =>
    exact htold.left hf hl
  | exhausted | noTick | ticked | halted | noFrame | clean | ended => exact hl

/-- A tick comes only of a poll that is answered by going on. -/
theorem Step.poll_of_execute (hf : host.Windowless frontend) (h : Step host r w next w')
    (hp : next.phase = .execute) :
    ¬ (frontend w).Left ∧ r.phase = .poll ∧
      r.machine.keys.pressAll (frontend w).scripted = (.ok (), next.machine.keys) := by
  cases h with
  | @polled keys _ hpoll _ e =>
    have hanswer := hf.poll e
    have hgo : ¬ (frontend w).Left := fun hl => hl r.machine.keys (by rw [hanswer])
    rw [Headless.left_iff, not_or] at hgo
    obtain ⟨hok, hkeys⟩ := Headless.poll_of_not_refuses hgo.1 r.machine.keys
    rw [hanswer] at hkeys
    have hheld : keys = (r.machine.keys.pressAll (frontend w).scripted).2 := by
      simpa using congrArg (fun x => x.1.2) hkeys
    refine ⟨by rw [Headless.left_iff, not_or]; exact hgo, hpoll, ?_⟩
    show _ = (_, keys)
    rw [hheld, ← hok]
  | ended he => rw [he] at hp; cases hp
  | _ => cases hp

/-- Between ticks no key is held, unless the user has left. -/
def LetGo (frontend : ω → Headless) (r : Run Mishap) (w : ω) : Prop :=
  r.phase ≠ .execute → r.machine.keys = .released ∨ (frontend w).Left

/-- **A step lets go of the keys**, unless it is a poll after which the user has left. -/
theorem Step.letGo (hf : host.Windowless frontend) (h : Step host r w next w')
    (hk : r.LetGo frontend w) : next.LetGo frontend w' := by
  intro hne
  -- while the user is there, the keys are not held before the step
  by_cases hl : (frontend w).Left
  · exact .inr (h.left hf hl)
  · cases h with
    | polled => exact absurd rfl hne
    | quit _ _ e | pollFailed _ _ e =>
      have hleft : ((frontend w).poll r.machine.keys).2.Left :=
        Headless.left_of_poll (by rw [hf.poll e]; nofun)
      rw [hf.poll e] at hleft
      exact .inr hleft
    | ticked | halted => exact .inl rfl
    | checked hp hm _ | toneFailed hp hm _ =>
      subst hm
      exact .inl ((hk (by rw [hp]; nofun)).resolve_right hl)
    | ended => exact .inl ((hk hne).resolve_right hl)
    | _ hp => exact .inl ((hk (by rw [hp]; nofun)).resolve_right hl)

/-- After the user has left there are no more ticks. -/
theorem Session.ne_execute (hf : host.Windowless frontend) (h : Session host r₀ w₀ r w)
    (hp : r₀.phase ≠ .execute) (hl : (frontend w₀).Left) : r.phase ≠ .execute := by
  refine (h.of_step (P := fun r w => (frontend w).Left ∧ r.phase ≠ .execute) ?_ ?_ ⟨hl, hp⟩).2
  · intro r w next w' hs ⟨hl, _⟩
    exact ⟨hs.left hf hl, fun hx => (hs.poll_of_execute hf hx).1 hl⟩
  · intro r w limit _ ⟨hl, _⟩
    exact ⟨hl, nofun⟩

/-- **Each tick sees its own keys only.**  A session starts with no key held; the program, the
script, the clock and the ways in which its runs end do not matter.

When the run goes on to a tick, the keys held are those of the script for the poll just made.  At
all other times, so whenever a run is over, no key is held, unless the user has left; and then the
session comes to no further tick. -/
theorem Session.own_keys (hf : host.Windowless frontend)
    (hkeys : r₀.machine.keys = .released) (h : Session host r₀ w₀ r w) :
    ((r.advance host w).1.phase = .execute → r.phase = .poll ∧
      ∀ key, (r.advance host w).1.machine.keys.isHeld key = true ↔
        ∃ k ∈ (frontend w).scripted, Word.digit k = key) ∧
    (r.phase ≠ .execute → r.machine.keys = .released ∨
      (frontend w).Left ∧ ∀ r' w', Session host r w r' w' → r'.phase ≠ .execute) := by
  have hletGo : r.LetGo frontend w := by
    refine h.of_step (fun hs => hs.letGo hf) (fun hover hk _ => ?_) (fun _ => .inl hkeys)
    exact hk (ne_execute_of_over hover)
  refine ⟨fun hx => ?_, fun hne => ?_⟩
  · obtain ⟨hstay, hpoll, hpress⟩ := (advance_step host r w).poll_of_execute hf hx
    have hnone : r.machine.keys = .released :=
      (hletGo (by rw [hpoll]; nofun)).resolve_right hstay
    refine ⟨hpoll, fun key => ?_⟩
    rw [hnone] at hpress
    rw [Keypad.isHeld_pressAll hpress, Keypad.isHeld_released]
    simp
  · exact (hletGo hne).imp_right fun hl => ⟨hl, fun r' w' hs => hs.ne_execute hf hne hl⟩

/-- A run of a program that goes round in place. -/
def waiting : Run Mishap := fresh {} (Machine.holding [(0x200, 0x12), (0x201, 0x00)]) none

/-- A bench where a key is held at each of two polls, and at the second the user quits. -/
def typing : Bench where
  frontend := { script := { keys := [(0, [5]), (1, [6])], quitAfterPolls := some 1 } }

theorem typing_sees_own_keys :
    (waiting.after Bench.host 3 typing).1.phase = .execute ∧
      ∀ key, (waiting.after Bench.host 3 typing).1.machine.keys.isHeld key = true ↔
        ∃ k ∈ [5], Word.digit k = key := by
  have htick : (waiting.after Bench.host 3 typing).1.phase = .execute := by decide +kernel
  refine ⟨htick, ?_⟩
  have hsession := session_after Bench.host waiting typing 2
  have hown := hsession.own_keys Bench.windowless rfl
  rw [← after_succ] at hown
  exact (hown.1 htick).2

/-- The second poll is answered by quitting, and nobody lets go of its key. -/
theorem quitting_leaves_keys_held :
    (waiting.after Bench.host 40 typing).1.outcome?.isSome ∧
      (waiting.after Bench.host 40 typing).1.machine.keys.isHeld 6 = true := by
  decide +kernel

end Run

end ChipEight
