/-
What the window shows of the screen.

A screen is marked when it is painted, that is, cleared or drawn on, and a run takes the mark away
when it has shown it.  Besides its runs a machine may be given instructions, ticks, programs and
resets of its own, in between or in the middle of a run.  All that happens to the screen is a list
of scenes, the earliest first:

    painted, rendered p, painted, painted, rendered q, …

A screen without a mark is the picture that was rendered last, whoever painted before and however
the runs ended; and between two pictures the screen was painted, unless the window refused the
first.  `Redraws` says what a scene makes of the screen, and every step of a run and every act on
the machine is a scene or leaves the screen alone.

Main result: `Watched.loses_nothing`.
-/
import Mathlib.Data.List.Chain
import ChipEight.Host.Bench
import ChipEight.Proofs.History
import ChipEight.Proofs.Reachable

namespace ChipEight

/-- Whether an instruction clears the screen or draws on it. -/
def Instruction.paints : Instruction → Bool
  | .clear | .draw .. => true
  | _ => false

/-- What happens to a screen: it is cleared or drawn on, or it is given to the window, which
accepts it or fails. -/
inductive Scene
  | painted
  | rendered (p : Picture) (accepted : Bool)
  deriving DecidableEq, Repr

/-- The picture that a call gives to the window, if it does. -/
def Call.picture? : Call → Option Picture
  | .render p => some p
  | .poll _ | .setTone _ => none

namespace Scene

/-- The scene of a change that may paint. -/
def ofPaint (paints : Bool) : Option Scene := if paints then some .painted else none

/-- The picture that the window was given, if it was given one. -/
def picture? : Scene → Option Picture
  | painted => none
  | rendered p _ => some p

/-- The pictures that the window was given, the earliest first. -/
def pictures (scenes : List Scene) : List Picture := scenes.filterMap picture?

theorem ofPaint_eq (paints : Bool) : ofPaint paints = none ∨ ofPaint paints = some .painted := by
  cases paints
  · exact .inl rfl
  · exact .inr rfl

/-- Two scenes that may follow each other: a picture that was accepted is followed by painting. -/
def Follows : Scene → Scene → Prop
  | rendered _ true, rendered _ _ => False
  | _, _ => True

/-- What a scene, or none, makes of a screen. -/
inductive Redraws (b : Framebuffer 64 32) : Option Scene → Framebuffer 64 32 → Prop
  | alone : Redraws b none b
  | painted {b' : Framebuffer 64 32} : b'.dirty = true → Redraws b (some .painted) b'
  | accepted : b.dirty = true → Redraws b (some (.rendered b.pixels true)) b.shown
  | refused : b.dirty = true → Redraws b (some (.rendered b.pixels false)) b

end Scene

open Scene

namespace Machine

variable {m : Machine} {i : Instruction}

/-! ### Painting -/

theorem perform_screen (h : i.paints = false) (m : Machine) :
    (m.perform i).2.screen = m.screen := by
  cases i with
  | clear | draw => cases h
  | ret | call | awaitKey =>
    simp only [perform]
    split <;> rfl
  | skipEqualByte | skipUnequalByte | skipEqual | skipUnequal | skipHeld | skipReleased =>
    simp only [perform, skipIf]
    split <;> rfl
  | addByte =>
    simp only [perform]
    split <;> rfl
  | _ => rfl

theorem perform_draw_redraws (m : Machine) (x y height : Int) :
    Redraws m.screen (ofPaint (m.perform (.draw x y height)).1.isNone)
      (m.perform (.draw x y height)).2.screen := by
  rcases Nat.lt_or_ge tallestSprite (m.spriteAt height.toNat).length with htall | hfits
  · simp only [perform, m.screen.draw_of_tall _ _ htall]
    exact .alone
  · simp only [perform, m.screen.draw_of_bytes (m.reg_bounds x) (m.reg_bounds y) hfits]
    exact .painted rfl

/-- **An instruction that paints marks the screen**, unless it is refused, and any other leaves it
alone. -/
theorem perform_redraws (i : Instruction) (m : Machine) :
    Redraws m.screen (ofPaint (i.paints && (m.perform i).1.isNone)) (m.perform i).2.screen := by
  rcases h : i.paints with - | -
  · rw [perform_screen h]
    exact .alone
  · cases i with
    | clear => exact .painted rfl
    | draw x y height => exact perform_draw_redraws m x y height
    | _ => cases h

theorem storeRegisters_screen (m : Machine) (count : Nat) :
    (m.storeRegisters count).screen = m.screen := rfl

theorem loadRegisters_screen (m : Machine) (count : Nat) :
    (m.loadRegisters count).screen = m.screen := rfl

theorem attempt_screen (i : Instruction) (m : Machine) : (m.attempt i).screen = m.screen := by
  cases i with
  | store => exact m.storeRegisters_screen 16
  | load => exact m.loadRegisters_screen 16
  | _ => rfl

theorem execute_redraws (i : Instruction) (m : Machine) :
    Redraws m.screen (ofPaint (i.paints && (m.execute i).1.isNone)) (m.execute i).2.screen := by
  unfold execute
  split
  · exact perform_redraws i m
  · split
    · exact perform_redraws i m
    · simp only [Option.isNone_some, Bool.and_false, attempt_screen]
      exact .alone

/-- Whether the next tick paints. -/
def tickPaints (m : Machine) : Bool :=
  match m.tick.1 with
  | .ok (some i) => i.paints
  | _ => false

@[simp] theorem settle_screen (m : Machine) : m.settle.screen = m.screen := by
  unfold settle
  split <;> rfl

/-- **A tick that paints marks the screen**, and any other leaves it alone. -/
theorem tick_redraws (m : Machine) :
    Redraws m.screen (ofPaint m.tickPaints) m.tick.2.screen := by
  have h := m.ticked
  unfold tickPaints
  rcases e : m.tick with ⟨answer, n⟩
  rw [e] at h
  cases h with
  | outOfBounds | unknown | refused => exact .alone
  | @performed w i m' _ _ hp =>
    have hi := perform_redraws i m
    rw [hp] at hi
    simpa using hi

/-! ### Acts apart from the runs -/

/-- What an act does to the screen. -/
def Act.scene? (m : Machine) : Act → Option Scene
  | .operate .tick => ofPaint m.tickPaints
  | .operate .reset => some .painted
  | .operate _ => none
  | .execute i => ofPaint (i.paints && (m.execute i).1.isNone)

/-- An act gives nothing to the window. -/
theorem scene?_act (a : Act) (m : Machine) : a.scene? m = none ∨ a.scene? m = some .painted := by
  cases a with
  | execute i => exact ofPaint_eq _
  | operate o =>
    cases o with
    | tick => exact ofPaint_eq _
    | reset => exact .inr rfl
    | load | press | releaseKeys | checkTimers => exact .inl rfl

/-- **An act paints and marks the screen, or leaves it alone.** -/
theorem act_redraws (a : Act) (m : Machine) : Redraws m.screen (a.scene? m) (m.act a).screen := by
  cases a with
  | execute i => exact execute_redraws i m
  | operate o =>
    cases o with
    | tick => exact tick_redraws m
    | reset => exact .painted rfl
    | load program =>
      obtain ⟨memory, e⟩ := load_frame program m
      rw [act, operate, e]
      exact .alone
    | press | releaseKeys | checkTimers => exact .alone

end Machine

namespace Run

variable {ω ε : Type} {host : Host ω ε} {r r₀ next : Run ε} {w w₀ w' : ω} {scenes : List Scene}

/-! ### The scenes of a run -/

/-- What the next step of a run does to the screen. -/
def scene? (host : Host ω ε) (r : Run ε) (w : ω) : Option Scene :=
  match r.call? with
  | some (.render p) => some (.rendered p (host.render p w).1.isOk)
  | _ =>
    match r.phase with
    | .execute => ofPaint r.machine.tickPaints
    | _ => none

theorem scene?_of_render {p : Picture} (h : r.call? = some (.render p)) :
    r.scene? host w = some (.rendered p (host.render p w).1.isOk) := by
  rw [scene?, h]

theorem scene?_of_execute (hp : r.phase = .execute) :
    r.scene? host w = ofPaint r.machine.tickPaints := by
  simp only [scene?, call?, hp]

/-- A step that is no tick and gives nothing to the window. -/
theorem scene?_of_quiet (hx : r.phase ≠ .execute) (hcall : ∀ p, r.call? ≠ some (.render p)) :
    r.scene? host w = none := by
  unfold scene?
  split
  · exact absurd ‹_› (hcall _)
  · split
    · exact absurd ‹_› hx
    · rfl

theorem scene?_of_phase (hx : r.phase ≠ .execute) (hd : r.phase ≠ .draw) :
    r.scene? host w = none :=
  scene?_of_quiet hx fun _ h => hd (call?_eq_render_iff.mp h).1

/-- **What a step does to the screen.** -/
theorem Step.redraws (h : Step host r w next w') :
    Redraws r.machine.screen (r.scene? host w) next.machine.screen := by
  cases h with
  | ticked hp e | halted hp e =>
    have hm := r.machine.tick_redraws
    rw [e] at hm
    rw [scene?_of_execute hp]
    exact hm
  | drawn hp hdue hdirty e =>
    rw [scene?_of_render (call?_eq_render_iff.mpr ⟨hp, hdue, hdirty, rfl⟩), e]
    exact .accepted hdirty
  | drawFailed hp hdue hdirty e =>
    rw [scene?_of_render (call?_eq_render_iff.mpr ⟨hp, hdue, hdirty, rfl⟩), e]
    exact .refused hdirty
  -- the phase in which pictures are drawn, but none is due, or the screen carries no mark
  | noFrame hp hdue =>
    have hcall (p : Picture) : r.call? ≠ some (.render p) := by
      intro hc
      exact absurd (call?_eq_render_iff.mp hc).2.1 (Int.not_le.mpr hdue)
    rw [scene?_of_quiet (by simp [hp]) hcall]
    exact .alone
  | clean hp _ hclean =>
    have hcall (p : Picture) : r.call? ≠ some (.render p) := by
      intro hc
      rw [(call?_eq_render_iff.mp hc).2.2.1] at hclean
      cases hclean
    rw [scene?_of_quiet (by simp [hp]) hcall]
    exact .alone
  | checked hp hm | toneFailed hp hm =>
    subst hm
    rw [scene?_of_phase (by simp [hp]) (by simp [hp])]
    exact .alone
  | begin hp | exhausted hp | look hp | noTick hp | polled hp | quit hp | pollFailed hp
  | pause hp | noPause hp | slept hp | sleepFailed hp | silenced hp | silenceFailed hp
  | ended hp =>
    rw [scene?_of_phase (by simp [hp]) (by simp [hp])]
    exact .alone

/-! ### What is kept -/

/-- What holds of a screen and of what happened to it: without a mark, the screen is the picture
that the window was given last; it carries no mark after a picture was accepted; and scenes follow
each other as they may. -/
structure UpToDate (scenes : List Scene) (b : Framebuffer 64 32) : Prop where
  seen : b.dirty = false → (pictures scenes).getLast? = some b.pixels
  unmarked : ∀ p, scenes.getLast? = some (.rendered p true) → b.dirty = false
  chain : scenes.IsChain Follows

/-- **What a scene keeps.** -/
theorem UpToDate.redraw {b b' : Framebuffer 64 32} {s : Option Scene} (h : UpToDate scenes b)
    (hs : Redraws b s b') : UpToDate (scenes ++ s.toList) b' := by
  -- a picture follows only where the screen is marked, so not after one that was accepted
  have hfollows (hdirty : b.dirty = true) (p : Picture) (accepted : Bool) :
      (scenes ++ [Scene.rendered p accepted]).IsChain Follows := by
    refine List.isChain_append.mpr ⟨h.chain, .singleton _, ?_⟩
    intro x hx y hy
    obtain rfl : y = Scene.rendered p accepted := by simpa using hy.symm
    rcases x with - | ⟨q, - | -⟩
    · trivial
    · trivial
    · have hclean := h.unmarked q hx
      rw [hdirty] at hclean
      cases hclean
  cases hs with
  | alone =>
    rw [Option.toList_none, List.append_nil]
    exact h
  | painted hdirty =>
    refine ⟨fun hclean => ?_, fun p hp => ?_, List.isChain_append.mpr ⟨h.chain, .singleton _, ?_⟩⟩
    · rw [hdirty] at hclean
      cases hclean
    · simp at hp
    · intro x _ y hy
      obtain rfl : y = .painted := by simpa using hy.symm
      rcases x with - | ⟨p, - | -⟩ <;> trivial
  | accepted hdirty =>
    exact ⟨fun _ => by simp [pictures, picture?, Framebuffer.shown], fun _ _ => rfl,
      hfollows hdirty _ _⟩
  | refused hdirty =>
    refine ⟨fun hclean => ?_, fun p hp => ?_, hfollows hdirty _ _⟩
    · rw [hdirty] at hclean
      cases hclean
    · simp at hp

/-- What becomes of a run and of its screen: it is played, and begun again whenever it is over; and
at any time the machine may be acted on apart from it. -/
inductive Watched (host : Host ω ε) (r₀ : Run ε) (w₀ : ω) : List Scene → Run ε → ω → Prop
  | start : Watched host r₀ w₀ [] r₀ w₀
  | step {scenes : List Scene} {r : Run ε} {w : ω} : Watched host r₀ w₀ scenes r w →
      Watched host r₀ w₀ (scenes ++ (r.scene? host w).toList)
        (r.advance host w).1 (r.advance host w).2
  | again {scenes : List Scene} {r : Run ε} {w : ω} (limit : Option Int) :
      Watched host r₀ w₀ scenes r w → r.outcome?.isSome →
      Watched host r₀ w₀ scenes (r.again limit) w
  | act {scenes : List Scene} {r : Run ε} {w : ω} (a : Machine.Act) :
      Watched host r₀ w₀ scenes r w → Watched host r₀ w₀ (scenes ++ (a.scene? r.machine).toList)
        { r with machine := r.machine.act a } w

/-- The scenes of the first steps of a run, the earliest first. -/
def scenesOf (host : Host ω ε) : Nat → Run ε → ω → List Scene
  | 0, _, _ => []
  | n + 1, r, w =>
    (r.scene? host w).toList ++ scenesOf host n (r.advance host w).1 (r.advance host w).2

theorem Watched.after (h : Watched host r₀ w₀ scenes r w) (n : Nat) :
    Watched host r₀ w₀ (scenes ++ scenesOf host n r w) (r.after host n w).1
      (r.after host n w).2 := by
  induction n generalizing scenes r w with
  | zero =>
    rw [scenesOf, List.append_nil]
    exact h
  | succ n ih =>
    rw [scenesOf, ← List.append_assoc]
    exact ih h.step

/-- A run that is over, an act on its machine, and another run. -/
theorem Watched.again_after (h : Watched host r₀ w₀ scenes r w) (hover : r.outcome?.isSome)
    (a : Machine.Act) (limit : Option Int) (n : Nat) :
    ∃ scenes', Watched host r₀ w₀ scenes'
      (({ r with machine := r.machine.act a }.again limit).after host n w).1
      (({ r with machine := r.machine.act a }.again limit).after host n w).2 :=
  ⟨_, ((h.act a).again limit hover).after n⟩

theorem Watched.upToDate (h : Watched host r₀ w₀ scenes r w)
    (hfresh : r₀.machine.screen.dirty = true) : UpToDate scenes r.machine.screen := by
  induction h with
  | start =>
    refine ⟨fun hclean => ?_, fun p hp => ?_, .nil⟩
    · rw [hfresh] at hclean
      cases hclean
    · cases hp
  | step _ ih => exact ih.redraw (advance_step ..).redraws
  | again _ _ _ ih => exact ih
  | act a _ ih => exact ih.redraw (Machine.act_redraws a _)

/-! ### What the window is given -/

/-- A step gives a picture to the window, or nothing, and then it may have painted. -/
theorem scene?_cases (host : Host ω ε) (r : Run ε) (w : ω) :
    (∃ p, r.call? = some (.render p) ∧
      r.scene? host w = some (.rendered p (host.render p w).1.isOk)) ∨
    r.call?.toList.filterMap Call.picture? = [] ∧
      (r.scene? host w = none ∨ r.scene? host w = some .painted) := by
  rcases hcall : r.call? with - | ⟨keys | p | on⟩
  case some.render => exact .inl ⟨p, rfl, scene?_of_render hcall⟩
  all_goals
    refine .inr ⟨rfl, ?_⟩
    rw [scene?, hcall]
    rcases r.phase with - | - | - | - | - | - | - | delay | o | o
    case execute => exact ofPaint_eq _
    all_goals exact .inl rfl

/-- The pictures among the scenes are those that the window was given. -/
theorem Watched.pictures_eq {v : ω × List Call}
    (h : Watched host.logged r₀ (w₀, []) scenes r v) :
    pictures scenes = v.2.filterMap Call.picture? := by
  generalize hv₀ : (w₀, ([] : List Call)) = v₀ at h
  induction h with
  | start =>
    rw [← hv₀]
    rfl
  | @step scenes r v _ ih =>
    obtain ⟨w, log⟩ := v
    rw [advance_logged, pictures, List.filterMap_append, List.filterMap_append]
    refine congrArg₂ _ ih ?_
    rcases scene?_cases host.logged r (w, log) with ⟨p, hcall, e⟩ | ⟨hcall, e⟩
    · rw [hcall, e]
      rfl
    · rw [hcall]
      rcases e with e | e <;> rw [e] <;> rfl
  | again _ _ _ ih => exact ih
  | @act scenes r v a _ ih =>
    rw [← ih, pictures, pictures, List.filterMap_append]
    rcases Machine.scene?_act a r.machine with e | e <;> rw [e] <;> exact List.append_nil _

/-- A window that shows all it is given accepts it. -/
theorem Watched.accepted_of_mem {p : Picture} {accepted : Bool}
    (hrender : ∀ p w, (host.render p w).1 = .ok ()) (h : Watched host r₀ w₀ scenes r w)
    (hp : .rendered p accepted ∈ scenes) : accepted = true := by
  induction h with
  | start => cases hp
  | @step scenes r w _ ih =>
    rcases List.mem_append.mp hp with hp | hp
    · exact ih hp
    · rcases scene?_cases host r w with ⟨q, -, e⟩ | ⟨-, e | e⟩ <;> rw [e] at hp
      · obtain ⟨rfl, rfl⟩ : p = q ∧ accepted = (host.render q w).1.isOk := by simpa using hp
        rw [hrender]
        rfl
      · cases hp
      · simp at hp
  | again _ _ _ ih => exact ih hp
  | @act scenes r w a _ ih =>
    rcases List.mem_append.mp hp with hp | hp
    · exact ih hp
    · rcases Machine.scene?_act a r.machine with e | e <;> rw [e] at hp <;> simp at hp

/-- **No change of the screen is lost.**  It is marked when the machine is switched on; then runs
of it, with any outside, and acts apart from them follow in any order, and each run ends as it may.

A screen without a mark is the picture that the window was given last.  Two pictures are given with
nothing painted in between only if the window refused the first; a window that shows all it is
given is never given two. -/
theorem Watched.loses_nothing {v : ω × List Call}
    (h : Watched host.logged r₀ (w₀, []) scenes r v)
    (hfresh : r₀.machine.screen.dirty = true) :
    pictures scenes = v.2.filterMap Call.picture? ∧
    (r.machine.screen.dirty = false →
      (v.2.filterMap Call.picture?).getLast? = some r.machine.screen.pixels) ∧
    (∀ before p q accepted accepted' after,
      scenes = before ++ .rendered p accepted :: .rendered q accepted' :: after →
      accepted = false) ∧
    ((∀ p w, (host.render p w).1 = .ok ()) → ∀ before p q accepted accepted' after,
      scenes ≠ before ++ .rendered p accepted :: .rendered q accepted' :: after) := by
  have hkeeps := h.upToDate hfresh
  have hrefused (before p q accepted accepted' after)
      (hscenes : scenes = before ++ .rendered p accepted :: .rendered q accepted' :: after) :
      accepted = false := by
    have hfollows : Follows (.rendered p accepted) (.rendered q accepted') :=
      List.isChain_iff_forall_rel_of_append_cons_cons.mp hkeeps.chain hscenes
    cases accepted
    · rfl
    · exact hfollows.elim
  refine ⟨h.pictures_eq, ?_, hrefused, ?_⟩
  · rw [← h.pictures_eq]
    exact hkeeps.seen
  · intro hrender before p q accepted accepted' after hscenes
    have hmem : .rendered p accepted ∈ scenes := by
      rw [hscenes]
      simp
    have haccepted := h.accepted_of_mem (fun p v => hrender p v.1) hmem
    rw [hrefused _ _ _ _ _ _ hscenes] at haccepted
    cases haccepted

/-- A run of two ticks of a program that goes round in place. -/
def idle : Run Mishap :=
  fresh {} (Machine.holding [(0, 0xFF), (0x200, 0x12), (0x201, 0x00)]) (some 2)

/-- The machine of that run is given a bar to draw, and runs again. -/
def redrawn : Run Mishap × Bench × List Call :=
  let ended := idle.after Bench.host.logged 60 ({}, [])
  ({ ended.1 with machine := ended.1.machine.act (.execute (.draw 0 0 1)) }.again (some 2)).after
    Bench.host.logged 60 ended.2

theorem redrawn_loses_nothing :
    idle.machine.screen.dirty = true ∧
    ∃ scenes, Watched Bench.host.logged idle ({}, []) scenes redrawn.1 redrawn.2 ∧
      redrawn.1.machine.screen.dirty = false ∧
      (redrawn.2.2.filterMap Call.picture?).getLast? = some redrawn.1.machine.screen.pixels ∧
      ∀ before p q accepted accepted' after,
        scenes ≠ before ++ .rendered p accepted :: .rendered q accepted' :: after := by
  have hover : (idle.after Bench.host.logged 60 ({}, [])).1.outcome?.isSome := by decide +kernel
  have hclean : redrawn.1.machine.screen.dirty = false := by decide +kernel
  have hstart : Watched Bench.host.logged idle ({}, []) [] idle ({}, []) := .start
  obtain ⟨scenes, h⟩ : ∃ scenes,
      Watched Bench.host.logged idle ({}, []) scenes redrawn.1 redrawn.2 :=
    (hstart.after 60).again_after hover (.execute (.draw 0 0 1)) (some 2) 60
  obtain ⟨-, hlast, -, hpainted⟩ := h.loses_nothing rfl
  exact ⟨rfl, scenes, h, hclean, hlast hclean, hpainted fun _ _ => rfl⟩

/-- A bench whose window is lost with the first picture it is given. -/
def blind : Host Bench Mishap := { Bench.host with render := fun _ b => (.error .windowLost, b) }

/-- The run ends with its first picture, and runs again. -/
def insistent : Run Mishap × Bench × List Call :=
  let ended := idle.after blind.logged 8 ({}, [])
  (ended.1.again (some 2)).after blind.logged 8 ended.2

/-- A window that refuses a picture is given it again, with nothing painted in between. -/
theorem blind_given_twice :
    idle.machine.screen.dirty = true ∧
    Watched blind.logged idle ({}, [])
      [.rendered idle.machine.screen.pixels false, .rendered idle.machine.screen.pixels false]
      insistent.1 insistent.2 ∧
    insistent.2.2 =
      [.poll .released, .render idle.machine.screen.pixels, .poll .released,
        .render idle.machine.screen.pixels] := by
  have hover : (idle.after blind.logged 8 ({}, [])).1.outcome?.isSome := by decide +kernel
  have hscenes : scenesOf blind.logged 8 idle ({}, []) ++
      scenesOf blind.logged 8 ((idle.after blind.logged 8 ({}, [])).1.again (some 2))
        (idle.after blind.logged 8 ({}, [])).2 =
      [.rendered idle.machine.screen.pixels false, .rendered idle.machine.screen.pixels false] := by
    decide +kernel
  have hstart : Watched blind.logged idle ({}, []) [] idle ({}, []) := .start
  refine ⟨rfl, ?_, by decide +kernel⟩
  have hended := hstart.after 8
  rw [List.nil_append] at hended
  unfold insistent
  generalize idle.after blind.logged 8 ({}, []) = ended at hover hscenes hended ⊢
  have h := (hended.again (some 2) hover).after 8
  rw [hscenes] at h
  exact h

end Run

end ChipEight
