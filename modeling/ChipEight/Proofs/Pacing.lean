/-
Never faster than configured, on any clock.

Nothing is assumed of the clock here: it may stall, run backwards or oversleep.  An activity of
period `p` that is first due at `s` is served at times `l` with

    s + k * p ≤ l[k],      (j - i - 2) * p < l[j] - l[i]    for i < j,

so it is never ahead of its schedule, and after a stall it makes up for one period at most.

`Paced` says so of a list of times, and `Pending` what is left of it for the next due time.  Ticks
and pictures are two instances of an `Activity`: whatever a step does for one of them is listed in
`Attends`, and the rest does not look at runs any more.  Main result: `Begins.never_bursts`.
-/
import ChipEight.Host.Bench
import ChipEight.Proofs.History
import ChipEight.Proofs.Pace

namespace ChipEight

/-! ### Times that are paced -/

/-- The times are no sooner than those of the schedule, and no backlog of more than one period is
made up for. -/
structure Paced (s p : Int) (l : List Int) : Prop where
  notEarly : ∀ (k : Nat) a, l[k]? = some a → s + k * p ≤ a
  noBurst : ∀ (i j : Nat) a b, i < j → l[i]? = some a → l[j]? = some b →
    ((j : Int) - i - 2) * p < b - a

/-- The due time after paced times: it is on schedule, or later, and apart from what was served. -/
structure Pending (s p : Int) (l : List Int) (due : Int) : Prop where
  onSchedule : s + l.length * p ≤ due
  apart : ∀ (i : Nat) a, l[i]? = some a → a + ((l.length : Int) - i - 2) * p < due

theorem getElem?_snoc {α : Type} {l : List α} {x a : α} {i : Nat} (h : (l ++ [x])[i]? = some a) :
    l[i]? = some a ∨ i = l.length ∧ a = x := by
  rcases Nat.lt_or_ge i l.length with hlt | hge
  · rw [List.getElem?_append_left hlt] at h
    exact .inl h
  · rw [List.getElem?_append_right hge, List.getElem?_singleton] at h
    split at h
    · exact .inr ⟨by omega, (Option.some.inj h).symm⟩
    · cases h

variable {s p due now : Int} {l : List Int}

theorem Paced.nil : Paced s p [] := ⟨nofun, nofun⟩

namespace Pending

theorem nil : Pending s p [] s := ⟨by simp, nofun⟩

/-- A due time may be put off. -/
theorem later (h : Pending s p l due) {due' : Int} (hle : due ≤ due') : Pending s p l due' :=
  ⟨Int.le_trans h.onSchedule hle, fun i a ha => Int.lt_of_lt_of_le (h.apart i a ha) hle⟩

/-- What is served when it is due, or later, is paced. -/
theorem paced_snoc (h : Pending s p l due) (hl : Paced s p l) (hdue : due ≤ now) :
    Paced s p (l ++ [now]) where
  notEarly := by
    intro k a ha
    rcases getElem?_snoc ha with ha | ⟨rfl, rfl⟩
    · exact hl.notEarly k a ha
    · exact Int.le_trans h.onSchedule hdue
  noBurst := by
    intro i j a b hij ha hb
    have hj := (List.getElem?_eq_some_iff.mp hb).1
    rw [List.length_append, List.length_singleton] at hj
    have hi : l[i]? = some a := by
      rcases getElem?_snoc ha with ha | ⟨rfl, -⟩
      · exact ha
      · omega
    rcases getElem?_snoc hb with hb | ⟨rfl, rfl⟩
    · exact hl.noBurst i j a b hij hi hb
    · have := h.apart i a hi
      omega

/-- After it is served, it is due again in time. -/
theorem serve (hp : 0 < p) (h : Pending s p l due) (hdue : due ≤ now) :
    Pending s p (l ++ [now]) (nextDue due p now) := by
  obtain ⟨hsched, hapart⟩ := h
  obtain ⟨hnext, hback⟩ := nextDue_bounds hp hdue
  have hlen : ((l ++ [now]).length : Int) = l.length + 1 := by simp
  refine ⟨?_, fun i a ha => ?_⟩
  · rw [hlen, Int.add_mul]
    omega
  · rw [hlen]
    rcases getElem?_snoc ha with ha | ⟨rfl, rfl⟩
    · have := hapart i a ha
      simp only [Int.sub_mul, Int.add_mul] at this ⊢
      omega
    · -- the backlog of the last service is less than a period
      simp only [Int.sub_mul, Int.add_mul]
      omega

end Pending

namespace Run

variable {ω ε : Type} {host : Host ω ε} {r next : Run ε} {w w' : ω}

/-! ### Activities -/

/-- Something that a run does at a period: the note of its times, its period and its due time. -/
structure Activity (ε : Type) where
  time? : Run ε → Option Int
  period : Pace → Int
  due : Run ε → Int

def ticks : Activity ε := ⟨tickTime?, Pace.tick, nextTick⟩

def frames : Activity ε := ⟨frameTime?, Pace.frame, nextFrame⟩

/-- What a step may do for an activity: leave it alone, put it off, serve it, or fail at it. -/
inductive Attends (p due : Int) (leaving : Prop) : Option Int → Int → Prop
  | waits : Attends p due leaving none due
  | skips {now : Int} : due ≤ now → Attends p due leaving none (nextDue due p now)
  | serves {now : Int} : due ≤ now → Attends p due leaving (some now) (nextDue due p now)
  | fails {now : Int} : due ≤ now → leaving → Attends p due leaving (some now) due

/-- How a step attends to an activity. -/
def Attended (act : Activity ε) (r next : Run ε) : Prop :=
  Attends (act.period r.pace) (act.due r) next.Leaving (act.time? r) (act.due next)

/-- A tick is performed when it is due. -/
def Prompt (r : Run ε) : Prop := r.phase = .execute → r.nextTick ≤ r.now

theorem Step.prompt (h : Step host r w next w') : next.Prompt := by
  intro hph
  cases h with
  | polled _ hdue _ => exact hdue
  | ended hp => rw [hp] at hph; cases hph
  | _ => cases hph

/-- A tick that is refused leaves the due time as it was, and the run leaves. -/
theorem Step.attended_ticks (h : Step host r w next w') (hph : r.phase ≠ .start)
    (hprompt : r.Prompt) : Attended ticks r next := by
  by_cases hx : r.phase = .execute
  · have htime : ticks.time? r = some r.now := tickTime?_eq_some_iff.mpr ⟨hx, rfl⟩
    rw [Attended, htime]
    cases h with
    | ticked => exact .serves (hprompt hx)
    | halted => exact .fails (hprompt hx) ⟨_, .inl rfl⟩
    | _ => simp_all
  · have htime : ticks.time? r = none :=
      eq_none_of_note (c := r.phase = .execute) tickTime?_eq_some_iff hx
    rw [Attended, htime]
    cases h with
    | begin hp => exact absurd hp hph
    | ticked hp | halted hp => exact absurd hp hx
    | _ => exact .waits

/-- A clean screen puts the picture off until the next due time. -/
theorem Step.attended_frames (h : Step host r w next w') (hph : r.phase ≠ .start) :
    Attended frames r next := by
  by_cases hx : r.phase = .draw ∧ r.nextFrame ≤ r.now ∧ r.machine.screen.dirty = true
  · have htime : frames.time? r = some r.now := frameTime?_eq_some_iff.mpr ⟨hx, rfl⟩
    rw [Attended, htime]
    obtain ⟨hp, hdue, hdirty⟩ := hx
    cases h with
    | drawn => exact .serves hdue
    | drawFailed => exact .fails hdue ⟨_, .inl rfl⟩
    | noFrame _ hlt => exact absurd hdue (Int.not_le.mpr hlt)
    | clean _ _ hclean => rw [hdirty] at hclean; cases hclean
    | _ => simp_all
  · have htime : frames.time? r = none := eq_none_of_note frameTime?_eq_some_iff hx
    rw [Attended, htime]
    cases h with
    | begin hp => exact absurd hp hph
    | clean _ hdue _ => exact .skips hdue
    | drawn hp hdue hdirty _ | drawFailed hp hdue hdirty _ => exact absurd ⟨hp, hdue, hdirty⟩ hx
    | _ => exact .waits

/-! ### What every step keeps -/

/-- The times of an activity are paced, and so they stay unless the run leaves. -/
structure Keeps (s p : Int) (l : List Int) (due : Int) (leaving : Prop) : Prop where
  paced : Paced s p l
  pending : leaving ∨ Pending s p l due

/-- However a step attends to an activity, its times stay paced. -/
theorem Attends.keeps {leaving : Prop} {time? : Option Int} {due' : Int}
    (h : Attends p due leaving time? due') (hp : 0 < p) (hl : Paced s p l)
    (hd : Pending s p l due) : Keeps s p (l ++ time?.toList) due' leaving := by
  cases h with
  | waits =>
    rw [Option.toList_none, List.append_nil]
    exact ⟨hl, .inr hd⟩
  | skips hdue =>
    rw [Option.toList_none, List.append_nil]
    have hnext := (nextDue_bounds hp hdue).1
    exact ⟨hl, .inr (hd.later (by omega))⟩
  | serves hdue => exact ⟨hd.paced_snoc hl hdue, .inr (hd.serve hp hdue)⟩
  | fails hdue hleave => exact ⟨hd.paced_snoc hl hdue, .inl hleave⟩

/-- Where the times of an activity stand: there are none before the run starts, and the first due
time is what the clock shows then. -/
structure OnPace (host : Host ω ε) (act : Activity ε) (s : Int) (l : List Int) (r : Run ε)
    (w : ω) : Prop where
  starts : r.phase = .start → l = [] ∧ (host.read w).1 = s
  goesOn : r.phase ≠ .start → Keeps s (act.period r.pace) l (act.due r) r.Leaving

theorem OnPace.paced {act : Activity ε} (hk : r.OnPace host act s l w) :
    Paced s (act.period r.pace) l := by
  by_cases hph : r.phase = .start
  · rw [(hk.starts hph).1]
    exact .nil
  · exact (hk.goesOn hph).paced

/-- An activity is due when the run starts, every other step attends to it until the run leaves,
and then it is not served any more. -/
structure Regular (host : Host ω ε) (act : Activity ε) : Prop where
  starts {r next : Run ε} {w w' : ω} : Step host r w next w' → r.phase = .start →
    act.time? r = none ∧ act.due next = (host.read w).1
  attended {r next : Run ε} {w w' : ω} : Step host r w next w' → r.phase ≠ .start → r.Prompt →
    Attended act r next
  leaves {r : Run ε} : r.Leaving → act.time? r = none

/-- **A step keeps every regular activity on pace.** -/
theorem Step.onPace {act : Activity ε} (hact : Regular host act) (hp : 0 < act.period r.pace)
    (h : Step host r w next w') (hprompt : r.Prompt) (hk : r.OnPace host act s l w) :
    next.OnPace host act s (l ++ (act.time? r).toList) w' := by
  refine ⟨fun hph => absurd hph h.ne_start, fun _ => ?_⟩
  rw [h.pace_eq]
  by_cases hph : r.phase = .start
  · -- nothing was served yet, and everything is due at once
    obtain ⟨rfl, hs⟩ := hk.starts hph
    obtain ⟨htime, hdue⟩ := hact.starts h hph
    rw [htime, hdue, hs]
    exact ⟨.nil, .inr .nil⟩
  · obtain ⟨hl, hd⟩ := hk.goesOn hph
    by_cases hr : r.Leaving
    · rw [hact.leaves hr, Option.toList_none, List.append_nil]
      exact ⟨hl, .inl (h.leaving hr)⟩
    · exact (hact.attended h hph hprompt).keeps hp hl (hd.resolve_left hr)

theorem ticks_regular : Regular host ticks where
  starts := by
    intro r next w w' h hph
    refine ⟨eq_none_of_note (c := r.phase = .execute) tickTime?_eq_some_iff ?_, ?_⟩
    · rw [hph]
      nofun
    cases h with
    | begin _ e => rw [e]; rfl
    | _ => simp_all
  attended := Step.attended_ticks
  leaves := by
    rintro r ⟨o, hph | hph⟩ <;>
      exact eq_none_of_note (c := r.phase = .execute) tickTime?_eq_some_iff (by rw [hph]; nofun)

theorem frames_regular : Regular host frames where
  starts := by
    intro r next w w' h hph
    refine ⟨eq_none_of_note frameTime?_eq_some_iff ?_, ?_⟩
    · rw [hph]
      nofun
    cases h with
    | begin _ e => rw [e]; rfl
    | _ => simp_all
  attended h hph _ := h.attended_frames hph
  leaves := by
    rintro r ⟨o, hph | hph⟩ <;>
      exact eq_none_of_note frameTime?_eq_some_iff (by rw [hph]; nofun)

/-! ### Runs -/

/-- **Every regular activity of a run is paced.** -/
theorem Regular.paced {act : Activity ε} (hact : Regular host act) (hs : r.phase = .start)
    (hp : 0 < act.period r.pace) (n : Nat) :
    Paced (host.read w).1 (act.period r.pace) (r.noted act.time? host w n) := by
  have hstart : r.Prompt := fun hx => by rw [hs] at hx; cases hx
  have hpace : r.OnPace host act (host.read w).1 [] w :=
    ⟨fun _ => ⟨rfl, rfl⟩, fun hne => absurd hs hne⟩
  obtain ⟨heq, -, hk⟩ : _ ∧ _ ∧ OnPace host act _ (r.noted act.time? host w n) _ _ :=
    noted_of_step
      (P := fun l r' w' => r'.pace = r.pace ∧ r'.Prompt ∧ r'.OnPace host act (host.read w).1 l w')
      (fun h ⟨heq, hprompt, hk⟩ =>
        ⟨h.pace_eq.trans heq, h.prompt, h.onPace hact (heq ▸ hp) hprompt hk⟩)
      ⟨rfl, hstart, hpace⟩ n
  rw [← heq]
  exact hk.paced

/-- **A run is never faster than it is configured to be, and never bursts.**  The clock may show
whatever it likes, the sleeps may last as long as they like, and the machine and the frontend do
not matter: the ticks of a run are paced from its first look at the clock on, and so are the
pictures it shows. -/
theorem Begins.never_bursts {c : Config} (hr : r.Begins c)
    (htick : 1 ≤ c.clockRate ∧ c.clockRate ≤ second)
    (hframe : 1 ≤ c.frameRate ∧ c.frameRate ≤ second) (n : Nat) :
    Paced (host.read w).1 (second.fdiv c.clockRate) (r.noted tickTime? host w n) ∧
      Paced (host.read w).1 (second.fdiv c.frameRate) (r.noted frameTime? host w n) := by
  have htickPeriod : r.pace.tick = second.fdiv c.clockRate := by rw [hr.pace]; rfl
  have hframePeriod : r.pace.frame = second.fdiv c.frameRate := by rw [hr.pace]; rfl
  rw [← htickPeriod, ← hframePeriod]
  refine ⟨ticks_regular.paced hr.phase ?_ n, frames_regular.paced hr.phase ?_ n⟩
  · show 0 < r.pace.tick
    rw [htickPeriod]
    exact (period_bounds htick).1
  · show 0 < r.pace.frame
    rw [hframePeriod]
    exact (period_bounds hframe).1

/-- A run of a program that draws for ever. -/
def drawing : Run Mishap :=
  fresh { clockRate := 4, frameRate := 2 }
    { Machine.holding [(0x200, 0xD0), (0x201, 0x11), (0x202, 0x12), (0x203, 0x00)] with
      timers := .stopped (second.fdiv 60) }
    none

/-- A bench with a clock that takes its time and stalls once, so that two ticks follow closely. -/
def stalling : Bench := { clock := { readCost := 1000, oversleep := [(13, 430000000)] } }

theorem drawing_never_bursts :
    drawing.noted tickTime? Bench.host stalling 160 =
        [1000, 663334324, 663336324, 750001000] ∧
      Paced 0 250000000 (drawing.noted tickTime? Bench.host stalling 160) ∧
      Paced 0 500000000 (drawing.noted frameTime? Bench.host stalling 160) := by
  have hbegins : drawing.Begins { clockRate := 4, frameRate := 2 } := begins_fresh ..
  refine ⟨by decide +kernel, ?_⟩
  show Paced (Bench.host.read stalling).1 (second.fdiv 4) _ ∧
    Paced (Bench.host.read stalling).1 (second.fdiv 2) _
  exact hbegins.never_bursts (by decide) (by decide) 160

end Run

end ChipEight
