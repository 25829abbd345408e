/-
A run comes to its end.

A pass need not take time: looking at the clock may be free, and a run that is late does not sleep.
And a pass need not tick.  But in every pass something is due, so a pass without a tick serves the
pictures or the timers, and puts off what it serves by a period.  Meanwhile the next tick stays
where it is, and nothing is served that is due after it:

    nextFrame < nextTick + period of the pictures,      nextTimer < nextTick + period of the timers.

So there is only so much to serve before the next tick (`owed`), and every step of such a pass
comes nearer to the next poll (`Step.distance_lt`).

A run with a limit polls once for every tick it may make, and a run that comes to a poll that asks
it to quit does.  Main result: `Begins.comes_to_end`.
-/
import ChipEight.Proofs.History
import ChipEight.Proofs.Limit
import ChipEight.Proofs.SteadyClock

namespace ChipEight

/-- What is served is due that much less often up to a later time. -/
theorem serve_lt (horizon : Int) {due period now : Int} (hp : 0 < period) (hdue : due ≤ now) :
    (horizon + period - nextDue due period now).toNat ≤ (horizon + period - due).toNat ∧
      (now < horizon →
        (horizon + period - nextDue due period now).toNat < (horizon + period - due).toNat) := by
  obtain ⟨hnext, -⟩ := nextDue_bounds hp hdue
  omega

namespace Run

variable {ω ε : Type} {host : Host ω ε} {shows : ω → Int → Prop}
variable {r next : Run ε} {w w' : ω}

/-! ### The way to the next poll -/

/-- The next step asks for the keys. -/
def Polls (r : Run ε) : Prop := r.phase = .poll ∧ r.nextTick ≤ r.now

/-- A bound on how often pictures and timers are served before the next tick. -/
def owed (r : Run ε) : Nat :=
  (r.nextTick + r.pace.frame - r.nextFrame).toNat +
    (r.nextTick + r.pace.timer - r.nextTimer).toNat

/-- A bound on the number of steps before the next poll: eight for everything that is
owed, and the rest of this pass.  A pass before the next tick that is still going to serve
something is counted there. -/
def distance (r : Run ε) : Nat :=
  8 * r.owed +
    match r.phase with
    | .sound => if r.now < r.nextTick ∧ (r.nextTimer ≤ r.now ∨ r.nextFrame ≤ r.now) then 5 else 13
    | .draw => if r.now < r.nextTick ∧ r.nextFrame ≤ r.now then 4 else 12
    | .measure => 11
    | .sleep _ => 10
    | .look => 9
    | .poll => 8
    | .start | .execute | .silence _ | .over _ => 0

/-- A pass without a tick has something else to serve. -/
theorem Standing.due_of_noTick {t : Int} (h : r.Standing t) (hp : r.phase = .poll)
    (hlt : r.now < r.nextTick) : r.nextTimer ≤ r.now ∨ r.nextFrame ≤ r.now := by
  rw [Standing, hp] at h
  obtain ⟨-, -, hwake⟩ := h
  unfold nextWake at hwake
  omega

/-- **Every step comes nearer to the next poll**, or leaves. -/
theorem Step.distance_lt (hp : r.pace.Brisk) (h : Step host r w next w')
    (hs : r.Steady shows w) (hstart : r.phase ≠ .start) (htick : r.phase ≠ .execute)
    (hpoll : ¬ r.Polls) (hleave : ¬ r.Leaving) : next.Leaving ∨ next.distance < r.distance := by
  obtain ⟨t, -, ht⟩ := hs
  cases h with
  | begin hph => exact absurd hph hstart
  | ticked hph | halted hph => exact absurd hph htick
  | polled hph hdue | quit hph hdue | pollFailed hph hdue => exact absurd ⟨hph, hdue⟩ hpoll
  | exhausted | toneFailed | drawFailed | sleepFailed => exact .inl ⟨_, .inl rfl⟩
  | silenced hph | silenceFailed hph => exact absurd ⟨_, .inl hph⟩ hleave
  | ended hph => exact absurd ⟨_, .inr hph⟩ hleave
  | noTick hph hlt =>
    have hdue := ht.due_of_noTick hph hlt
    right
    simp only [distance, hph, owed]
    rw [if_pos ⟨hlt, hdue⟩]
    omega
  | look hph | pause hph | noPause hph | slept hph =>
    right
    simp only [distance, hph, owed]
    omega
  | checked hph =>
    -- less is owed if the timers are served, and else a picture is still to come
    have hserve (hdue : r.nextTimer ≤ r.now) := serve_lt r.nextTick hp.timer.1 hdue
    right
    simp only [distance, hph, owed]
    split <;> split <;> split <;> omega
  | noFrame hph hlt =>
    right
    simp only [distance, hph, owed]
    split <;> omega
  | clean hph hdue | drawn hph hdue =>
    have hserve := serve_lt r.nextTick hp.frame.1 hdue
    right
    simp only [distance, hph, owed]
    split <;> omega

/-! ### From poll to poll -/

theorem Step.cycles_eq (h : Step host r w next w') (hstart : r.phase ≠ .start)
    (htick : r.phase ≠ .execute) : next.cycles = r.cycles := by
  cases h with
  | begin hph => exact absurd hph hstart
  | ticked hph => exact absurd hph htick
  | _ => rfl

theorem Step.polls_of_execute (h : Step host r w next w') (hx : next.phase = .execute) :
    r.Polls := by
  cases h with
  | polled hph hdue => exact ⟨hph, hdue⟩
  | ended hph => rw [hph] at hx; cases hx
  | _ => cases hx

/-- A poll that is answered by going on is followed by a tick, and any other by the end. -/
theorem Step.execute_of_polls (h : Step host r w next w') (hr : r.Polls) :
    next.Leaving ∨ next.phase = .execute ∧ (host.poll r.machine.keys w).1.1 = .ok false := by
  obtain ⟨hph, hdue⟩ := hr
  cases h with
  | polled _ _ e =>
    refine .inr ⟨rfl, ?_⟩
    rw [e]
  | quit | pollFailed => exact .inl ⟨_, .inl rfl⟩
  | noTick _ hlt => exact absurd hdue (Int.not_le.mpr hlt)
  | _ => simp_all

/-- A tick is counted, unless the run leaves. -/
theorem Step.cycles_of_execute (h : Step host r w next w') (hr : r.phase = .execute) :
    next.Leaving ∨ next.cycles = r.cycles + 1 := by
  cases h with
  | ticked => exact .inr rfl
  | halted => exact .inl ⟨_, .inl rfl⟩
  | _ => simp_all

/-- **A run comes to its next poll**, or leaves, whatever it does meanwhile. -/
theorem comes_to_poll (hc : host.SteadyClock shows) (hp : r.pace.Brisk) (hs : r.Steady shows w)
    (hstart : r.phase ≠ .start) (htick : r.phase ≠ .execute) :
    ∃ n, (r.after host n w).1.Leaving ∨
      (r.after host n w).1.Polls ∧ (r.after host n w).1.cycles = r.cycles := by
  induction hd : r.distance using Nat.strongRecOn generalizing r w with
  | ind d ih =>
    by_cases hleave : r.Leaving
    · exact ⟨0, .inl hleave⟩
    by_cases hpoll : r.Polls
    · exact ⟨0, .inr ⟨hpoll, rfl⟩⟩
    have h := advance_step host r w
    rcases h.distance_lt hp hs hstart htick hpoll hleave with hout | hlt
    · exact ⟨1, .inl hout⟩
    · have hp' : (r.advance host w).1.pace.Brisk := by
        rw [h.pace_eq]
        exact hp
      have htick' : (r.advance host w).1.phase ≠ .execute := fun hx => hpoll (h.polls_of_execute hx)
      obtain ⟨n, hn⟩ := ih _ (hd ▸ hlt) hp' (h.steady hc hp hs) h.ne_start htick' rfl
      rw [h.cycles_eq hstart htick] at hn
      exact ⟨n + 1, hn⟩

theorem after_steady (hc : host.SteadyClock shows) (hp : r.pace.Brisk) (hs : r.Steady shows w)
    (n : Nat) :
    (r.after host n w).1.pace.Brisk ∧ (r.after host n w).1.Steady shows (r.after host n w).2 := by
  refine after_of_step (P := fun r w => r.pace.Brisk ∧ r.Steady shows w) (fun h hr => ?_) ⟨hp, hs⟩ n
  exact ⟨by rw [h.pace_eq]; exact hr.1, h.steady hc hr.1 hr.2⟩

/-- The steps that start a run and that perform a tick lead to where a run comes to its next
poll. -/
theorem comes_to_poll_next (hc : host.SteadyClock shows) (hp : r.pace.Brisk)
    (hs : r.Steady shows w) (hph : r.phase = .start ∨ r.phase = .execute) :
    ∃ n, (r.after host n w).1.Leaving ∨ (r.after host n w).1.Polls ∧
      (r.after host n w).1.cycles = (r.advance host w).1.cycles := by
  have h := advance_step host r w
  obtain ⟨hp', hs'⟩ := after_steady hc hp hs 1
  have htick : (r.advance host w).1.phase ≠ .execute := by
    intro hx
    have hpoll := (h.polls_of_execute hx).1
    rcases hph with e | e <;> rw [e] at hpoll <;> cases hpoll
  obtain ⟨n, hn⟩ := comes_to_poll hc hp' hs' h.ne_start htick
  exact ⟨n + 1, hn⟩

/-- A run polls again and again, until it leaves. -/
theorem polls_again (hc : host.SteadyClock shows) (hp : r.pace.Brisk) (hs : r.Steady shows w) :
    ∃ n, (r.after host n w).1.Leaving ∨ (r.after host n w).1.Polls := by
  by_cases hph : r.phase = .start ∨ r.phase = .execute
  · obtain ⟨n, hn⟩ := comes_to_poll_next hc hp hs hph
    exact ⟨n, hn.imp_right And.left⟩
  · rw [not_or] at hph
    obtain ⟨n, hn⟩ := comes_to_poll hc hp hs hph.1 hph.2
    exact ⟨n, hn.imp_right And.left⟩

/-- A run comes to its poll number `k`, counted from zero, or leaves before. -/
theorem comes_to_poll_number (hc : host.SteadyClock shows) (hp : r.pace.Brisk)
    (hs : r.Steady shows w) (hstart : r.phase = .start) (k : Nat) :
    ∃ n, (r.after host n w).1.Leaving ∨
      (r.after host n w).1.Polls ∧ (r.after host n w).1.cycles = k := by
  induction k with
  | zero =>
    have h0 : (r.advance host w).1.cycles = 0 := by
      rw [advance, hstart]
      rfl
    have hnext := comes_to_poll_next hc hp hs (.inl hstart)
    rw [h0] at hnext
    exact hnext
  | succ k ih =>
    obtain ⟨n, hn⟩ := ih
    rcases hn with hleave | ⟨hpoll, hcycles⟩
    · exact ⟨n, .inl hleave⟩
    -- poll number `k` and its tick, and then on to the next poll
    have hpolled := advance_step host (r.after host n w).1 (r.after host n w).2
    rw [← after_succ] at hpolled
    rcases hpolled.execute_of_polls hpoll with hleave | ⟨hexecute, -⟩
    · exact ⟨n + 1, .inl hleave⟩
    have hticked := advance_step host (r.after host (n + 1) w).1 (r.after host (n + 1) w).2
    rcases hticked.cycles_of_execute hexecute with hleave | hcount
    · refine ⟨n + 2, .inl ?_⟩
      rw [after_succ]
      exact hleave
    obtain ⟨hp', hs'⟩ := after_steady hc hp hs (n + 1)
    obtain ⟨m, hm⟩ := comes_to_poll_next hc hp' hs' (.inr hexecute)
    have hpollPhase : (r.after host n w).1.phase = .poll := hpoll.1
    rw [← after_add, hcount, hpolled.cycles_eq (by simp [hpollPhase]) (by simp [hpollPhase]),
      hcycles] at hm
    exact ⟨n + 1 + m, hm⟩

/-! ### The end -/

theorem over_succ {n : Nat} (h : (r.after host n w).1.Leaving) :
    (r.after host (n + 1) w).1.outcome?.isSome := by
  rw [after_succ]
  exact (advance_step ..).over_of_leaving h

/-- A run that is limited does not come to the poll for one tick more. -/
theorem not_polls_of_limit {limit : Int} (hstart : r.phase = .start)
    (hlimit : r.limit = some limit) (n : Nat) :
    ¬ ((r.after host n w).1.Polls ∧ (r.after host n w).1.cycles = limit.toNat) := by
  rintro ⟨⟨hpoll, -⟩, hcycles⟩
  have hbegun : r.Within limit := ⟨hlimit, by rw [hstart]; trivial⟩
  obtain ⟨-, hwithin⟩ : (r.after host n w).1.Within limit :=
    after_of_step (P := fun r _ => r.Within limit) (fun h hr => h.within hr) hbegun n
  rw [hpoll] at hwithin
  exact Nat.ne_of_lt hwithin hcycles

/-- **A run comes to its end.**  The machine, its program and the frontend do not matter, nor how
many ticks there are in a second.  Pictures and timers have rates from one to a thousand million a
second, and the clock does not go back and sleeps as long as it is asked to, or longer.

A run with a limit ends.  Any run comes to its next poll after finitely many steps, so after
finitely many passes, unless it ends before.  And so it ends as soon as some poll, the one
number `k` of this run, is not answered by going on. -/
theorem Begins.comes_to_end {c : Config} {rate t : Int} (hr : r.Begins c)
    (htick : 1 ≤ c.clockRate) (hframe : 1 ≤ c.frameRate ∧ c.frameRate ≤ second)
    (htimer : 1 ≤ rate ∧ rate ≤ second) (hperiod : r.machine.timers.period = second.fdiv rate)
    (hc : host.SteadyClock shows) (hw : shows w t) :
    (∀ limit, r.limit = some limit → ∃ n, (r.after host n w).1.outcome?.isSome) ∧
    (∀ n, ∃ m, n ≤ m ∧
      ((r.after host m w).1.outcome?.isSome ∨ (r.after host m w).1.Polls)) ∧
    ∀ k, (∀ n, (r.after host n w).1.Polls → (r.after host n w).1.cycles = k →
        (host.poll (r.after host n w).1.machine.keys (r.after host n w).2).1.1 ≠ .ok false) →
      ∃ n, (r.after host n w).1.outcome?.isSome := by
  have hp := hr.brisk htick hframe htimer hperiod
  have hs : r.Steady shows w := steady_start hr.phase hw
  refine ⟨fun limit hlimit => ?_, fun n => ?_, fun k hquit => ?_⟩
  · obtain ⟨n, hn⟩ := comes_to_poll_number hc hp hs hr.phase limit.toNat
    exact ⟨n + 1, over_succ (hn.resolve_right (not_polls_of_limit hr.phase hlimit n))⟩
  · obtain ⟨hp', hs'⟩ := after_steady hc hp hs n
    obtain ⟨m, hm⟩ := polls_again hc hp' hs'
    rw [← after_add] at hm
    rcases hm with hleave | hpoll
    · exact ⟨n + m + 1, by omega, .inl (over_succ hleave)⟩
    · exact ⟨n + m, by omega, .inr hpoll⟩
  · obtain ⟨n, hleave | ⟨hpoll, hcycles⟩⟩ := comes_to_poll_number hc hp hs hr.phase k
    · exact ⟨n + 1, over_succ hleave⟩
    · refine ⟨n + 2, over_succ ?_⟩
      have hanswer := hquit n hpoll hcycles
      have h := advance_step host (r.after host n w).1 (r.after host n w).2
      rw [after_succ]
      exact (h.execute_of_polls hpoll).resolve_right fun hx => hanswer hx.2

/-- A run of two ticks with a thousand million pictures due in between. -/
def crowded : Run Mishap :=
  fresh { clockRate := 1, frameRate := 1000000000 }
    (.powerOn {} (.cycling #[]) (second.fdiv 999999937)) (some 2)

/-- A bench where looking at the clock takes no time, and where one sleep takes too long. -/
def dozing : Bench := { clock := { oversleep := [(3, 1700000000)] } }

theorem crowded_comes_to_end :
    crowded.limit = some 2 ∧ ∃ n, (crowded.after Bench.host n dozing).1.outcome?.isSome := by
  have hbegins : crowded.Begins { clockRate := 1, frameRate := 1000000000 } := begins_fresh ..
  have hclock : dozing.clock.Steady 0 := ⟨rfl, by decide, by decide⟩
  have hrate : (1 : Int) ≤ 999999937 ∧ 999999937 ≤ second := by decide
  have hends := hbegins.comes_to_end (by decide) (by decide) hrate rfl Bench.steadyClock hclock
  exact ⟨rfl, hends.1 2 rfl⟩

end Run

end ChipEight
