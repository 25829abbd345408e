/-
What crosses the handoff.

The main thread publishes latches and takes pictures, the worker polls and renders, and all the
while the latches are pressed and cleared and the screen is drawn on.  Operations come in any order
and number:

    press, load, clear     a latch, by its name
    draw, wipe             the screen
    publish, take, listen, requestQuit
    poll, render, setTone

What is read is what was written last, as it was then (`after_of_last`): no operation on a source
reaches the copy that was made of it.  A picture is read once, so the pictures taken are some of
those rendered, in their order (`taken_sublist`).

Main result: `exchanged`.
-/
import ChipEight.Handoff
import Mathlib.Logic.Function.Basic

namespace ChipEight

/-- The handoff, with the latches and the screen that are copied into it and from it. -/
structure Exchange where
  handoff : Handoff := {}
  /-- the latches of both threads, by their names -/
  latches : Nat → Keypad
  screen : Framebuffer 64 32

namespace Exchange

/-- What either thread does at once. -/
inductive Op
  | press (latch : Nat) (key : Int)
  | load (latch : Nat) (states : List Bool)
  | clear (latch : Nat)
  | draw (x y : Int) (sprite : List UInt8)
  | wipe
  | publish (latch : Nat)
  | take
  | listen
  | requestQuit
  | poll (latch : Nat)
  | render
  | setTone (on : Bool)

def put (latch : Nat) (keys : Keypad) (e : Exchange) : Exchange :=
  { e with latches := Function.update e.latches latch keys }

/-- Change a latch, unless the change is refused. -/
def change (latch : Nat) (answer : Except KeypadError Keypad) (e : Exchange) : Exchange :=
  match answer with
  | .ok keys => e.put latch keys
  | .error _ => e

def perform (op : Op) (e : Exchange) : Exchange :=
  match op with
  | .press latch key => e.change latch ((e.latches latch).press key)
  | .load latch states => e.change latch (Keypad.ofStates states)
  | .clear latch => e.put latch .released
  | .draw x y sprite => { e with screen := (e.screen.draw x y sprite).2 }
  | .wipe => { e with screen := e.screen.clear }
  | .publish latch => { e with handoff := e.handoff.publish (e.latches latch) }
  | .take => { e with handoff := e.handoff.take.2 }
  | .listen => e
  | .requestQuit => { e with handoff := e.handoff.requestQuit }
  | .poll latch => e.put latch e.handoff.poll.2
  | .render => { e with handoff := e.handoff.render e.screen.pixels }
  | .setTone on => { e with handoff := e.handoff.setTone on }

/-- The exchange after some operations, the first one first. -/
def after (ops : List Op) (e : Exchange) : Exchange := ops.foldl (fun e op => e.perform op) e

/-- The pictures that are rendered, in order. -/
def rendered : List Op → Exchange → List Picture
  | [], _ => []
  | .render :: ops, e => e.screen.pixels :: rendered ops (e.perform .render)
  | op :: ops, e => rendered ops (e.perform op)

/-- The pictures that are taken, in order. -/
def taken : List Op → Exchange → List Picture
  | [], _ => []
  | .take :: ops, e => e.handoff.take.1.toList ++ taken ops (e.perform .take)
  | op :: ops, e => taken ops (e.perform op)

variable {α : Type} {e : Exchange} {op : Op} {ops before later : List Op}

/-! ### What an operation leaves alone -/

@[simp] theorem change_handoff (latch : Nat) (answer : Except KeypadError Keypad) (e : Exchange) :
    (e.change latch answer).handoff = e.handoff := by
  cases answer <;> rfl

theorem perform_keys (h : ∀ latch, op ≠ .publish latch) (e : Exchange) :
    (e.perform op).handoff.keys = e.handoff.keys := by
  cases op with
  | publish latch => exact absurd rfl (h latch)
  | press | load => exact congrArg Handoff.keys (change_handoff ..)
  | _ => rfl

theorem perform_tone (h : ∀ on, op ≠ .setTone on) (e : Exchange) :
    (e.perform op).handoff.tone = e.handoff.tone := by
  cases op with
  | setTone on => exact absurd rfl (h on)
  | press | load => exact congrArg Handoff.tone (change_handoff ..)
  | _ => rfl

theorem perform_quit (h : op ≠ .requestQuit) (e : Exchange) :
    (e.perform op).handoff.quit = e.handoff.quit := by
  cases op with
  | requestQuit => exact absurd rfl h
  | press | load => exact congrArg Handoff.quit (change_handoff ..)
  | _ => rfl

theorem perform_frame (hr : op ≠ .render) (ht : op ≠ .take) (e : Exchange) :
    (e.perform op).handoff.frame = e.handoff.frame := by
  cases op with
  | render => exact absurd rfl hr
  | take => exact absurd rfl ht
  | press | load => exact congrArg Handoff.frame (change_handoff ..)
  | _ => rfl

/-! ### The last of its kind -/

theorem after_append (ops ops' : List Op) (e : Exchange) :
    e.after (ops ++ ops') = (e.after ops).after ops' :=
  List.foldl_append

theorem after_of_keeps {f : Exchange → α} (h : ∀ op ∈ ops, ∀ e, f (e.perform op) = f e)
    (e : Exchange) : f (e.after ops) = f e := by
  induction ops generalizing e with
  | nil => rfl
  | cons op ops ih =>
    exact (ih (fun op' hop' => h op' (.tail op hop')) (e.perform op)).trans (h op (.head ops) e)

/-- **What is there is as the last operation left it that touched it.** -/
theorem after_of_last {f : Exchange → α} (h : ∀ op' ∈ later, ∀ e, f (e.perform op') = f e)
    (before : List Op) (op : Op) (e : Exchange) :
    f (e.after (before ++ op :: later)) = f ((e.after before).perform op) := by
  rw [after_append]
  exact after_of_keeps h ((e.after before).perform op)

theorem after_quit (ops : List Op) (e : Exchange) :
    (e.after ops).handoff.quit = true ↔ e.handoff.quit = true ∨ .requestQuit ∈ ops := by
  induction ops generalizing e with
  | nil => exact ⟨.inl, fun h => h.resolve_right List.not_mem_nil⟩
  | cons op ops ih =>
    refine (ih (e.perform op)).trans ?_
    by_cases hop : op = .requestQuit
    · subst hop
      exact ⟨fun _ => .inr (.head ops), fun _ => .inl rfl⟩
    · rw [perform_quit hop, List.mem_cons, or_iff_right (Ne.symm hop)]

/-! ### Pictures -/

/-- **A picture is there for the taking** when one is rendered and none is taken thereafter. -/
theorem after_frame (ops : List Op) (e : Exchange) :
    (e.after ops).handoff.frame ≠ none ↔
      (e.handoff.frame ≠ none ∧ .take ∉ ops) ∨
        ∃ before later, ops = before ++ .render :: later ∧ .take ∉ later := by
  induction ops generalizing e with
  | nil => simp [after]
  | cons op ops ih =>
    have hsplit : (∃ before later, op :: ops = before ++ Op.render :: later ∧ .take ∉ later) ↔
        (op = .render ∧ .take ∉ ops) ∨
          ∃ before later, ops = before ++ .render :: later ∧ .take ∉ later := by
      constructor
      · rintro ⟨- | ⟨o, before⟩, later, heq, hlater⟩
        · obtain ⟨rfl, rfl⟩ := List.cons.inj heq
          exact .inl ⟨rfl, hlater⟩
        · exact .inr ⟨before, later, (List.cons.inj heq).2, hlater⟩
      · rintro (⟨rfl, hops⟩ | ⟨before, later, rfl, hlater⟩)
        · exact ⟨[], ops, rfl, hops⟩
        · exact ⟨op :: before, later, rfl, hlater⟩
    refine (ih (e.perform op)).trans ?_
    rw [hsplit, ← or_assoc]
    refine or_congr_left ?_
    by_cases hr : op = .render
    · subst hr
      simp [perform, Handoff.render]
    · by_cases ht : op = .take
      · subst ht
        simp [perform, Handoff.take]
      · rw [perform_frame hr ht, List.mem_cons, or_iff_right (Ne.symm ht)]
        simp [hr]

theorem rendered_cons (h : op ≠ .render) (ops : List Op) (e : Exchange) :
    rendered (op :: ops) e = rendered ops (e.perform op) := by
  cases op <;> first | rfl | exact absurd rfl h

theorem taken_cons (h : op ≠ .take) (ops : List Op) (e : Exchange) :
    taken (op :: ops) e = taken ops (e.perform op) := by
  cases op <;> first | rfl | exact absurd rfl h

/-- **The pictures taken are some of those that were there or are rendered**, in their order. -/
theorem taken_sublist (ops : List Op) (e : Exchange) :
    (taken ops e).Sublist (e.handoff.frame.toList ++ rendered ops e) := by
  induction ops generalizing e with
  | nil => exact List.nil_sublist _
  | cons op ops ih =>
    have hrest := ih (e.perform op)
    by_cases hr : op = .render
    · subst hr
      exact hrest.trans (List.sublist_append_right ..)
    by_cases ht : op = .take
    · subst ht
      exact (List.Sublist.refl e.handoff.frame.toList).append hrest
    · rw [perform_frame hr ht] at hrest
      rwa [rendered_cons hr, taken_cons ht]

/-- The newest picture is taken. -/
theorem after_frame_of_render (hr : .render ∉ later) (ht : .take ∉ later) (before : List Op)
    (e : Exchange) :
    (e.after (before ++ .render :: later)).handoff.frame =
      some (e.after before).screen.pixels :=
  after_of_last (f := fun e => e.handoff.frame) (fun _ hop e =>
    perform_frame (fun h => hr (h ▸ hop)) (fun h => ht (h ▸ hop)) e) before .render e

/-! ### The exchange -/

/-- **What crosses the handoff**, in whichever order the two threads get to it, and whatever becomes
of the latches and the screen meanwhile.

A poll fills its latch with the keys of the last publish as they were then, and tells whether
anyone has asked to quit.  A take finds nothing unless a picture was rendered since the last
take, and then the newest, as the screen was then; so what is taken is taken in the order in which
it was rendered.  The tone is the last that was set. -/
theorem exchanged {start : Exchange} (hstart : start.handoff = {}) (ops : List Op) :
    (∀ before latch later, ops = before ++ .publish latch :: later →
      (∀ l, .publish l ∉ later) →
        ∀ own, ((start.after ops).perform (.poll own)).latches own =
          (start.after before).latches latch) ∧
    ((∀ l, .publish l ∉ ops) →
      ∀ own, ((start.after ops).perform (.poll own)).latches own = .released) ∧
    ((start.after ops).handoff.poll.1 = true ↔ .requestQuit ∈ ops) ∧
    ((start.after ops).handoff.take.1 = none ↔
      ∀ before later, ops = before ++ .render :: later → .take ∈ later) ∧
    (∀ before later, ops = before ++ .render :: later → .render ∉ later → .take ∉ later →
      (start.after ops).handoff.take.1 = some (start.after before).screen.pixels) ∧
    (taken ops start).Sublist (rendered ops start) ∧
    (∀ before on later, ops = before ++ .setTone on :: later → (∀ b, .setTone b ∉ later) →
      (start.after ops).handoff.tone = on) ∧
    ((∀ b, .setTone b ∉ ops) → (start.after ops).handoff.tone = false) := by
  refine ⟨?_, ?_, ?_, ?_, ?_, ?_, ?_, ?_⟩
  · rintro before latch later rfl hlater own
    refine (Function.update_self ..).trans ?_
    exact after_of_last (f := fun e => e.handoff.keys) (fun _ hop e =>
      perform_keys (fun l h => hlater l (h ▸ hop)) e) before (.publish latch) start
  · intro hops own
    refine (Function.update_self ..).trans ?_
    refine (after_of_keeps (f := fun e => e.handoff.keys) (fun _ hop e =>
      perform_keys (fun l h => hops l (h ▸ hop)) e) start).trans ?_
    rw [hstart]
  · refine (after_quit ops start).trans (or_iff_right ?_)
    rw [hstart]
    nofun
  · refine not_iff_not.mp ((after_frame ops start).trans ?_)
    rw [or_iff_right fun h => h.1 (by rw [hstart])]
    simp only [not_forall, exists_prop]
  · rintro before later rfl hr ht
    exact after_frame_of_render hr ht before start
  · have hsub := taken_sublist ops start
    rwa [hstart] at hsub
  · rintro before on later rfl hlater
    exact after_of_last (f := fun e => e.handoff.tone) (fun _ hop e =>
      perform_tone (fun b h => hlater b (h ▸ hop)) e) before (.setTone on) start
  · intro hops
    refine (after_of_keeps (f := fun e => e.handoff.tone) (fun _ hop e =>
      perform_tone (fun b h => hops b (h ▸ hop)) e) start).trans ?_
    rw [hstart]

/-- A key is pressed and published, and let go; a point is drawn and rendered, and wiped away. -/
def passing : List Op :=
  [.press 0 5, .publish 0, .clear 0, .press 0 6, .draw 3 2 [0x80], .render, .wipe, .setTone true,
    .requestQuit]

/-- No key is held, and the screen is dark. -/
def idle : Exchange := { latches := fun _ => .released, screen := .blank }

theorem passing_exchanged :
    let e := idle.after passing
    ((e.perform (.poll 1)).latches 1).heldKeys = [5] ∧ e.handoff.poll.1 = true ∧
      e.handoff.take.1.map Grid.litCount = some 1 ∧ e.screen.pixels.litCount = 0 ∧
      e.handoff.tone = true := by
  obtain ⟨hkeys, -, hquit, -, hframe, -, htone, -⟩ :=
    exchanged (show idle.handoff = {} from rfl) passing
  have hpoll := hkeys [.press 0 5] 0 (passing.drop 2) rfl (by simp [passing]) 1
  have htake := hframe (passing.take 5) (passing.drop 6) rfl (by simp [passing]) (by simp [passing])
  refine ⟨?_, hquit.mpr (by simp [passing]), ?_, ?_,
    htone (passing.take 7) true [.requestQuit] rfl (by simp)⟩
  · rw [hpoll]
    decide
  · rw [htake]
    decide +kernel
  · decide +kernel

end Exchange

end ChipEight
