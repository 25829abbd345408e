/-
What one step of a run may come to.

A step looks at the phase, at a due time or an answer from outside, and goes on to another
phase.  `Step` lists the ways in which it may go, each with all that it changes; between two
passes the run goes round

    look → polled → ticked → checked → drawn → pause → slept → look,

and every refusal leads to `silence` and from there to `over`.  Later statements about runs go by
cases on `Step` and do not open the phases again.
-/
import ChipEight.Run

namespace ChipEight.Run

variable {ω ε : Type} {host : Host ω ε} {r next : Run ε} {w w' : ω}

/-- What telling the beeper may come to if it was last told `tone`: nothing if that is no news,
and else its answer. -/
inductive Told (host : Host ω ε) (tone on : Bool) (w : ω) : Except ε Unit → ω → Prop
  | same : tone = on → Told host tone on w (.ok ()) w
  | news {answer : Except ε Unit} {w' : ω} : tone ≠ on → host.setTone on w = (answer, w') →
      Told host tone on w answer w'

/-- What a step may come to. -/
inductive Step (host : Host ω ε) (r : Run ε) (w : ω) : Run ε → ω → Prop
  | begin {t : Int} {w' : ω} : r.phase = .start → host.read w = (t, w') →
      Step host r w { r with
        phase := .look, cycles := 0, now := t, nextTick := t, nextFrame := t, nextTimer := t } w'
  | exhausted : r.phase = .look → r.exhausted = true →
      Step host r w (r.leave (.ok { reason := .cycleLimit, cycles := r.cycles })) w
  | look {t : Int} {w' : ω} : r.phase = .look → r.exhausted = false → host.read w = (t, w') →
      Step host r w { r with phase := .poll, now := t } w'
  | noTick : r.phase = .poll → r.now < r.nextTick → Step host r w { r with phase := .sound } w
  | polled {keys : Keypad} {w' : ω} : r.phase = .poll → r.nextTick ≤ r.now →
      host.poll r.machine.keys w = ((.ok false, keys), w') →
      Step host r w { r with machine := { r.machine with keys }, phase := .execute } w'
  | quit {keys : Keypad} {w' : ω} : r.phase = .poll → r.nextTick ≤ r.now →
      host.poll r.machine.keys w = ((.ok true, keys), w') →
      Step host r w ({ r with machine := { r.machine with keys } }.leave
        (.ok { reason := .quit, cycles := r.cycles })) w'
  | pollFailed {e : ε} {keys : Keypad} {w' : ω} : r.phase = .poll → r.nextTick ≤ r.now →
      host.poll r.machine.keys w = ((.error e, keys), w') →
      Step host r w ({ r with machine := { r.machine with keys } }.leave (.error e)) w'
  | ticked {i : Option Instruction} {m : Machine} : r.phase = .execute →
      r.machine.tick = (.ok i, m) →
      Step host r w { r with
        machine := m.releaseKeys, phase := .sound, cycles := r.cycles + 1,
        nextTick := nextDue r.nextTick r.pace.tick r.now } w
  | halted {h : Halt} {m : Machine} : r.phase = .execute → r.machine.tick = (.error h, m) →
      Step host r w ({ r with machine := m.releaseKeys }.leave (.ok (.halted h r.cycles))) w
  | checked {m : Machine} {w' : ω} : r.phase = .sound → r.machine.checkTimers r.now = m →
      Told host r.tone m.timers.soundOn w (.ok ()) w' →
      Step host r w { r with
        machine := m, tone := m.timers.soundOn, phase := .draw,
        nextTimer := if r.now < r.nextTimer then r.nextTimer
          else nextDue r.nextTimer r.pace.timer r.now } w'
  | toneFailed {m : Machine} {e : ε} {w' : ω} : r.phase = .sound →
      r.machine.checkTimers r.now = m → Told host r.tone m.timers.soundOn w (.error e) w' →
      Step host r w ({ r with machine := m, tone := m.timers.soundOn }.leave (.error e)) w'
  | noFrame : r.phase = .draw → r.now < r.nextFrame → Step host r w { r with phase := .measure } w
  | clean : r.phase = .draw → r.nextFrame ≤ r.now → r.machine.screen.dirty = false →
      Step host r w { r with
        phase := .measure, nextFrame := nextDue r.nextFrame r.pace.frame r.now } w
  | drawn {w' : ω} : r.phase = .draw → r.nextFrame ≤ r.now → r.machine.screen.dirty = true →
      host.render r.machine.screen.pixels w = (.ok (), w') →
      Step host r w { r with
        machine := { r.machine with screen := r.machine.screen.shown }, phase := .measure,
        nextFrame := nextDue r.nextFrame r.pace.frame r.now } w'
  | drawFailed {e : ε} {w' : ω} : r.phase = .draw → r.nextFrame ≤ r.now →
      r.machine.screen.dirty = true →
      host.render r.machine.screen.pixels w = (.error e, w') → Step host r w (r.leave (.error e)) w'
  | pause {t : Int} {w' : ω} : r.phase = .measure → host.read w = (t, w') → t < r.nextWake →
      Step host r w { r with phase := .sleep (r.nextWake - t) } w'
  | noPause {t : Int} {w' : ω} : r.phase = .measure → host.read w = (t, w') → r.nextWake ≤ t →
      Step host r w { r with phase := .look } w'
  | slept {delay : Int} {w' : ω} : r.phase = .sleep delay → host.sleep delay w = (.ok (), w') →
      Step host r w { r with phase := .look } w'
  | sleepFailed {delay : Int} {e : ε} {w' : ω} : r.phase = .sleep delay →
      host.sleep delay w = (.error e, w') → Step host r w (r.leave (.error e)) w'
  | silenced {o : Outcome ε} {w' : ω} : r.phase = .silence o →
      Told host r.tone false w (.ok ()) w' →
      Step host r w { r with tone := false, phase := .over o } w'
  | silenceFailed {o : Outcome ε} {e : ε} {w' : ω} : r.phase = .silence o →
      Told host r.tone false w (.error e) w' →
      Step host r w { r with tone := false, phase := .over (.error e) } w'
  | ended {o : Outcome ε} : r.phase = .over o → Step host r w r w

/-! ### One phase at a time -/

theorem tell_told (host : Host ω ε) (on : Bool) (r : Run ε) (w : ω) :
    ∃ answer w', r.tell host on w = (answer, { r with tone := on }, w') ∧
      Told host r.tone on w answer w' := by
  unfold tell
  split
  · rename_i h
    -- nothing is told, but `tone` is what it would have been set to
    refine ⟨.ok (), w, ?_, .same h⟩
    rw [← h]
  · rename_i h
    exact ⟨_, _, rfl, .news h rfl⟩

theorem look_step (hp : r.phase = .look) :
    Step host r w (r.look host w).1 (r.look host w).2 := by
  unfold look
  rcases hx : r.exhausted with - | -
  · exact .look hp hx rfl
  · exact .exhausted hp hx

theorem poll_step (hp : r.phase = .poll) :
    Step host r w (r.poll host w).1 (r.poll host w).2 := by
  unfold poll
  by_cases hdue : r.now < r.nextTick
  · rw [if_pos hdue]
    exact .noTick hp hdue
  · rw [if_neg hdue]
    have hdue' := Int.not_lt.mp hdue
    rcases e : host.poll r.machine.keys w with ⟨⟨e' | - | -, keys⟩, w'⟩
    · exact .pollFailed hp hdue' e
    · exact .polled hp hdue' e
    · exact .quit hp hdue' e

theorem execute_step (hp : r.phase = .execute) : Step host r w r.execute w := by
  unfold execute
  rcases e : r.machine.tick with ⟨h | i, m⟩
  · exact .halted hp e
  · exact .ticked hp e

theorem sound_step (hp : r.phase = .sound) :
    Step host r w (r.sound host w).1 (r.sound host w).2 := by
  unfold sound
  obtain ⟨answer, w', e, htold⟩ := tell_told host (r.machine.checkTimers r.now).timers.soundOn
    { r with machine := r.machine.checkTimers r.now } w
  dsimp only
  rw [e]
  rcases answer with e' | ⟨⟩
  · exact .toneFailed hp rfl htold
  · have h := Step.checked hp rfl htold
    by_cases hdue : r.now < r.nextTimer
    · simpa only [if_pos hdue] using h
    · simpa only [if_neg hdue] using h

theorem draw_step (hp : r.phase = .draw) :
    Step host r w (r.draw host w).1 (r.draw host w).2 := by
  unfold draw
  by_cases hdue : r.now < r.nextFrame
  · rw [if_pos hdue]
    exact .noFrame hp hdue
  · rw [if_neg hdue]
    have hdue' := Int.not_lt.mp hdue
    rcases hd : r.machine.screen.dirty with - | -
    · exact .clean hp hdue' hd
    · dsimp only
      rw [if_pos rfl]
      rcases e : host.render r.machine.screen.pixels w with ⟨e' | ⟨⟩, w'⟩
      · exact .drawFailed hp hdue' hd e
      · exact .drawn hp hdue' hd e

theorem measure_step (hp : r.phase = .measure) :
    Step host r w (r.measure host w).1 (r.measure host w).2 := by
  unfold measure
  rcases e : host.read w with ⟨t, w'⟩
  rcases Int.lt_or_le t r.nextWake with hlt | hle
  · have hpos : 0 < r.nextWake - t := Int.sub_pos_of_lt hlt
    simpa only [if_pos hpos] using Step.pause hp e hlt
  · have hneg : ¬ 0 < r.nextWake - t := by omega
    simpa only [if_neg hneg] using Step.noPause hp e hle

theorem rest_step {delay : Int} (hp : r.phase = .sleep delay) :
    Step host r w (r.rest host delay w).1 (r.rest host delay w).2 := by
  unfold rest
  rcases e : host.sleep delay w with ⟨e' | ⟨⟩, w'⟩
  · exact .sleepFailed hp e
  · exact .slept hp e

theorem silence_step {o : Outcome ε} (hp : r.phase = .silence o) :
    Step host r w (r.silence host o w).1 (r.silence host o w).2 := by
  unfold silence
  obtain ⟨answer, w', e, htold⟩ := tell_told host false r w
  rw [e]
  rcases answer with e' | ⟨⟩
  · exact .silenceFailed hp htold
  · exact .silenced hp htold

/-- **What a step may come to.** -/
theorem advance_step (host : Host ω ε) (r : Run ε) (w : ω) :
    Step host r w (r.advance host w).1 (r.advance host w).2 := by
  unfold advance
  rcases hp : r.phase with - | - | - | - | - | - | - | delay | o | o
  · exact .begin hp rfl
  · exact look_step hp
  · exact poll_step hp
  · exact execute_step hp
  · exact sound_step hp
  · exact draw_step hp
  · exact measure_step hp
  · exact rest_step hp
  · exact silence_step hp
  · exact .ended hp

/-- A run starts once. -/
theorem Step.ne_start (h : Step host r w next w') : next.phase ≠ .start := by
  cases h with
  | ended hp => rw [hp]; nofun
  | _ => nofun

theorem over_of_outcome {o : Outcome ε} (h : r.outcome? = some o) : r.phase = .over o := by
  unfold outcome? at h
  split at h
  · rename_i hp
    rw [hp, Option.some.inj h]
  · cases h

/-! ### Many steps -/

/-- The last of many steps. -/
theorem after_succ (host : Host ω ε) (n : Nat) (r : Run ε) (w : ω) :
    r.after host (n + 1) w = (r.after host n w).1.advance host (r.after host n w).2 := by
  induction n generalizing r w with
  | zero => rfl
  | succ n ih => exact ih (r.advance host w).1 (r.advance host w).2

/-- Many steps are some of them and then the rest. -/
theorem after_add (host : Host ω ε) (n m : Nat) (r : Run ε) (w : ω) :
    r.after host (n + m) w = (r.after host n w).1.after host m (r.after host n w).2 := by
  induction m with
  | zero => rfl
  | succ m ih =>
    rw [after_succ, ← ih]
    exact after_succ host (n + m) r w

/-- **What every step keeps, every run keeps.** -/
theorem after_of_step {P : Run ε → ω → Prop}
    (hstep : ∀ {r w next w'}, Step host r w next w' → P r w → P next w') (h : P r w) (n : Nat) :
    P (r.after host n w).1 (r.after host n w).2 := by
  induction n with
  | zero => exact h
  | succ n ih =>
    rw [after_succ]
    exact hstep (advance_step ..) ih

end ChipEight.Run
