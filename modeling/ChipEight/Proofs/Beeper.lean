/-
The beeper and what a run believes about it.

A run keeps in `tone` what it told the beeper last, and tells it only what is different.  If the
two agree when the run starts,

    tone = sounding,

then they agree after every step, whatever clock, keys and screen do
(`after_tone_eq_sounding`).
-/
import ChipEight.Host.Bench
import ChipEight.Proofs.Advance

namespace ChipEight

/-- The outside has a beeper, which does what it is told and goes on with it meanwhile. -/
structure Host.Beeper {ω ε : Type} (host : Host ω ε) (sounding : ω → Bool) : Prop where
  read {w t w'} : host.read w = (t, w') → sounding w' = sounding w
  sleep {delay w answer w'} : host.sleep delay w = (answer, w') → sounding w' = sounding w
  poll {keys w answer w'} : host.poll keys w = (answer, w') → sounding w' = sounding w
  render {picture w answer w'} : host.render picture w = (answer, w') → sounding w' = sounding w
  setTone {on w answer w'} : host.setTone on w = (answer, w') → sounding w' = on

namespace Headless

/-- Whether the beeper was last told to sound. -/
def sounding (f : Headless) : Bool := f.tones.back? = some true

theorem sounding_setTone (on : Bool) (f : Headless) : (f.setTone on).sounding = on := by
  unfold setTone
  rcases e : f.isNews on with - | -
  · -- no news, so the beeper was last told the same
    have hlast : f.tones.back? = some on := by simpa [isNews] using e
    simp [sounding, hlast]
  · simp [sounding]

theorem sounding_poll (keys : Keypad) (f : Headless) : (f.poll keys).2.sounding = f.sounding := by
  unfold poll
  split
  · rfl
  · split
    · rfl
    · split <;> rfl

end Headless

theorem Bench.beeper : host.Beeper fun b => b.frontend.sounding where
  read := by
    rintro b _ _ ⟨⟩
    rfl
  sleep := by
    rintro delay b _ _ ⟨⟩
    rfl
  poll := by
    rintro keys b _ _ ⟨⟩
    exact b.frontend.sounding_poll keys
  render := by
    rintro picture b _ _ ⟨⟩
    rfl
  setTone := by
    rintro on b _ _ ⟨⟩
    exact b.frontend.sounding_setTone on

namespace Run

variable {ω ε : Type} {host : Host ω ε} {sounding : ω → Bool} {r next : Run ε} {w w' : ω}

theorem Told.eq_sounding (hb : host.Beeper sounding) {tone on : Bool} {answer : Except ε Unit}
    (h : Told host tone on w answer w') (ht : tone = sounding w) : on = sounding w' := by
  cases h with
  | same hon => rw [← hon, ht]
  | news _ e => exact (hb.setTone e).symm

/-- **A step leaves the beeper as the run believes it to be.** -/
theorem Step.tone_eq_sounding (hb : host.Beeper sounding) (h : Step host r w next w')
    (ht : r.tone = sounding w) : next.tone = sounding w' := by
  cases h with
  | begin _ e | look _ _ e | pause _ e _ | noPause _ e _ => exact ht.trans (hb.read e).symm
  | polled _ _ e | quit _ _ e | pollFailed _ _ e => exact ht.trans (hb.poll e).symm
  | drawn _ _ _ e | drawFailed _ _ _ e => exact ht.trans (hb.render e).symm
  | slept _ e => exact ht.trans (hb.sleep e).symm
  | sleepFailed _ e => exact ht.trans (hb.sleep e).symm
  | checked _ _ htold => exact htold.eq_sounding hb ht
  | toneFailed _ _ htold => exact htold.eq_sounding hb ht
  | silenced _ htold => exact htold.eq_sounding hb ht
  | silenceFailed _ htold => exact htold.eq_sounding hb ht
  | exhausted | noTick | ticked | halted | noFrame | clean | ended => exact ht

/-- **A run knows what its beeper does.** -/
theorem after_tone_eq_sounding (hb : host.Beeper sounding) (ht : r.tone = sounding w) (n : Nat) :
    (r.after host n w).1.tone = sounding (r.after host n w).2 :=
  after_of_step (fun h => h.tone_eq_sounding hb) ht n

end Run

end ChipEight
