/-
What the beeper is told, over all the runs of a machine.

A run tells the beeper only what is news to it, so what the beeper is told goes

    true, false, true, false, …

without end or beginning at a run: a run switches the beeper off when it is left, whichever way,
and the next one starts from there, whether the sound timer still runs or not.

In a pass the beeper is told after the timers have been checked, and from there to the end of the
pass it was last told what the sound timer says.  The answers of the beeper do not matter: a run
takes it as told when it has called it, also if the call fails.

Main result: `Session.keeps_tone`.
-/
import ChipEight.Host.Bench
import ChipEight.Proofs.History
import ChipEight.Proofs.Session

namespace ChipEight

/-- What a call tells the beeper, if anything. -/
def Call.tone? : Call → Option Bool
  | .setTone on => some on
  | .poll _ | .render _ => none

/-- What the beeper was told, the earliest first. -/
def told (log : List Call) : List Bool := log.filterMap Call.tone?

/-- What the beeper was told last; a beeper that was told nothing is silent. -/
def lastTold (log : List Call) : Bool := (told log).getLast?.getD false

theorem told_news (tone on : Bool) :
    told (if tone = on then none else some (Call.setTone on)).toList =
      (if tone = on then none else some on).toList := by
  split <;> rfl

/-- The beeper was told to sound and to be silent in turns, and last what `tone` says. -/
def InTurns (tone : Bool) (tones : List Bool) : Prop :=
  tones = (List.range tones.length).map (fun i => decide (i % 2 = 0)) ∧
    tone = decide (tones.length % 2 = 1)

theorem inTurns_nil : InTurns false [] := ⟨rfl, rfl⟩

/-- **What is news is the other of the two.** -/
theorem InTurns.tell {tone : Bool} {tones : List Bool} (h : InTurns tone tones) (on : Bool) :
    InTurns on (tones ++ (if tone = on then none else some on).toList) := by
  obtain ⟨hturns, htone⟩ := h
  split
  · rename_i hsame
    rw [Option.toList_none, List.append_nil]
    exact ⟨hturns, hsame ▸ htone⟩
  · rename_i hnews
    -- of two tones the other one is told, so it goes by the number of those told before
    have hon : on = decide (tones.length % 2 = 0) := by
      rw [Bool.eq_not_of_ne (Ne.symm hnews), htone, ← decide_not]
      exact decide_eq_decide.mpr (by omega)
    rw [Option.toList_some]
    refine ⟨?_, ?_⟩
    · rw [List.length_append, List.length_singleton, List.range_succ, List.map_append, ← hturns,
        hon]
      rfl
    · rw [hon, List.length_append, List.length_singleton]
      exact decide_eq_decide.mpr (by omega)

theorem InTurns.last {tone : Bool} {tones : List Bool} (h : InTurns tone tones) :
    tones.getLast?.getD false = tone := by
  obtain ⟨hturns, htone⟩ := h
  rw [hturns, htone]
  rcases tones.length with - | n
  · rfl
  · rw [List.range_succ, List.map_append, List.map_singleton, List.getLast?_concat]
    exact decide_eq_decide.mpr (by omega)

namespace Run

variable {ω ε : Type} {host : Host ω ε} {r r₀ next : Run ε} {w w₀ w' : ω} {log : List Call}

/-- The timers were checked in this pass, and the beeper was told. -/
def Checked (r : Run ε) : Prop :=
  match r.phase with
  | .draw | .measure | .sleep _ => True
  | _ => False

/-- What a run keeps of what it told the beeper. -/
structure Tuned (r : Run ε) (log : List Call) : Prop where
  turns : InTurns r.tone (told log)
  checked : r.Checked → r.tone = r.machine.timers.soundOn
  silent : r.outcome?.isSome → r.tone = false

/-- **A step tells the beeper what is news to it**, and nothing else. -/
theorem Step.told_call? (h : Step host r w next w') :
    told r.call?.toList = (if r.tone = next.tone then none else some next.tone).toList := by
  cases h with
  | checked hp hm | toneFailed hp hm =>
    subst hm
    simp only [call?, hp]
    exact told_news ..
  | silenced hp | silenceFailed hp =>
    simp only [call?, hp]
    exact told_news ..
  | noTick hp hdue | noFrame hp hdue => simp [call?, hp, hdue, told]
  | polled hp hdue | quit hp hdue | pollFailed hp hdue =>
    simp [call?, hp, Int.not_lt.mpr hdue, told, Call.tone?, leave]
  | clean hp hdue hd | drawn hp hdue hd | drawFailed hp hdue hd =>
    simp [call?, hp, Int.not_lt.mpr hdue, hd, told, Call.tone?, leave]
  | begin hp | exhausted hp | look hp | ticked hp | halted hp | pause hp | noPause hp | slept hp
  | sleepFailed hp | ended hp =>
    simp [call?, hp, told, leave]

/-- **A step keeps the beeper in tune.** -/
theorem Step.tuned (h : Step host r w next w') (ht : r.Tuned log) :
    next.Tuned (log ++ r.call?.toList) where
  turns := by
    have hnews := ht.turns.tell next.tone
    rw [← h.told_call?] at hnews
    rw [told, List.filterMap_append]
    exact hnews
  checked := by
    intro hc
    cases h with
    -- the beeper was told of the timers at the check, and no step has touched them since
    | checked => rfl
    | noFrame hp | clean hp | drawn hp =>
      exact ht.checked (by rw [Checked, hp]; trivial)
    | pause hp => exact ht.checked (by rw [Checked, hp]; trivial)
    | ended hp => rw [Checked, hp] at hc; cases hc
    | _ => cases hc
  silent := by
    intro ho
    cases h with
    | silenced | silenceFailed => rfl
    | ended => exact ht.silent ho
    | _ => cases ho

/-- A pass that is complete leaves the tone as it was checked. -/
theorem Step.checked_of_look (h : Step host r w next w')
    (hc : r.Checked → r.tone = r.machine.timers.soundOn) (hp : r.phase ≠ .start)
    (hlook : next.phase = .look) : next.tone = next.machine.timers.soundOn := by
  cases h with
  | begin he => exact absurd he hp
  | noPause he | slept he => exact hc (by rw [Checked, he]; trivial)
  | ended he => rw [he] at hlook; cases hlook
  | _ => cases hlook

theorem Session.tuned {v : ω × List Call} (h : Session host.logged r₀ (w₀, []) r v)
    (hstart : r₀.phase = .start) (htone : r₀.tone = false) : r.Tuned v.2 := by
  generalize hv₀ : (w₀, ([] : List Call)) = v₀ at h
  induction h with
  | start =>
    rw [← hv₀]
    refine ⟨by rw [htone]; exact inTurns_nil, fun hc => ?_, fun _ => htone⟩
    rw [Checked, hstart] at hc
    cases hc
  | @step r v _ ih =>
    obtain ⟨w, log⟩ := v
    rw [advance_logged]
    exact (advance_step host r w).tuned ih
  | again limit _ _ ih => exact ⟨ih.turns, nofun, nofun⟩

/-- **What the beeper is told.**  Whatever the machine, the outside and the limits, in all runs
that are made one after the other the beeper is told to sound and to be silent in turns.  At the
end of a pass it was last told whether the sound timer runs, and when a run is over, to be silent,
in whatever way the run ended. -/
theorem Session.keeps_tone {v : ω × List Call} (h : Session host.logged r₀ (w₀, []) r v)
    (hstart : r₀.phase = .start) (htone : r₀.tone = false) :
    told v.2 = (List.range (told v.2).length).map (fun i => decide (i % 2 = 0)) ∧
    (r.phase ≠ .start → (r.advance host.logged v).1.phase = .look →
      lastTold (r.advance host.logged v).2.2 =
        decide (0 < (r.advance host.logged v).1.machine.timers.sound.value)) ∧
    (r.outcome?.isSome → lastTold v.2 = false) := by
  have hlast {r : Run ε} {log : List Call} (ht : r.Tuned log) : lastTold log = r.tone :=
    ht.turns.last
  have ht := h.tuned hstart htone
  refine ⟨ht.turns.1, fun hp hlook => ?_, fun hover => ?_⟩
  · rw [hlast (h.step.tuned hstart htone)]
    exact (advance_step host.logged r v).checked_of_look ht.checked hp hlook
  · rw [hlast ht, ht.silent hover]

/-- A run of two ticks of a program that sets the sound timer. -/
def humming : Run Mishap :=
  fresh {} (Machine.holding [(0x200, 0x60), (0x201, 0x03), (0x202, 0xF0), (0x203, 0x18),
    (0x204, 0x12), (0x205, 0x04)]) (some 2)

/-- A bench where the window is lost at the fourth poll. -/
def failing : Bench where
  frontend := { script := { failAt := some 3 } }

/-- What becomes of two runs, of which the second finds the sound timer still running, and loses its
window. -/
def interrupted : Run Mishap × Bench × List Call :=
  let ended := humming.after Bench.host.logged 60 (failing, [])
  (ended.1.again none).after Bench.host.logged 60 ended.2

theorem interrupted_keeps_tone :
    humming.phase = .start ∧ humming.tone = false ∧ interrupted.1.outcome?.isSome ∧
      (told interrupted.2.2).length = 4 ∧ told interrupted.2.2 = [true, false, true, false] ∧
      lastTold interrupted.2.2 = false := by
  have hover : (humming.after Bench.host.logged 60 (failing, [])).1.outcome?.isSome := by
    decide +kernel
  have hcalls : interrupted.1.outcome?.isSome ∧ (told interrupted.2.2).length = 4 := by
    decide +kernel
  have hsession : Session Bench.host.logged humming (failing, []) interrupted.1 interrupted.2 :=
    (((session_after Bench.host.logged humming (failing, []) 60).again none hover).after 60)
  obtain ⟨hturns, -, hsilent⟩ := hsession.keeps_tone rfl rfl
  rw [hcalls.2] at hturns
  exact ⟨rfl, rfl, hcalls.1, hcalls.2, hturns, hsilent hcalls.1⟩

end Run

end ChipEight
