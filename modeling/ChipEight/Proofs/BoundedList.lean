/-
The call stack as a bounded list.

A stack is asked to push, to pop, to clear itself, and for its length.  A list of at most `size`
addresses, oldest first, can be asked the same:

    push a    l         →  l ++ [a]             refused if  l.length = size
    pop       l ++ [a]  →  l, replies a         refused if  l = []
    clear     l         →  []
    length    l         →  l, replies l.length

A request on the stack is the same request on the list of its addresses in use (`serve_inUse`).  So
requests in a row get the same replies from both, and the list stays that of the addresses in use.

Which address a pop takes can be told from the depths alone, without a list.  It is that of the last
push which has not been undone: the depth has not come back since to what it was before
(`PushedLast`).  For an address on the stack stays in its place as long as the depth stays above it
(`after_stays`), and was pushed at some time and has stayed since (`exists_push`).

Main result: `refines_bounded_list`.
-/
import ChipEight.Proofs.CallStack
import Mathlib.Data.List.Induction

namespace ChipEight.CallStack

variable {size : Nat} {s : CallStack size} {a : Int} {base : List Int}

/-- What a stack is asked. -/
inductive Request
  | push (address : Int)
  | pop
  | clear
  | length
  deriving DecidableEq, Repr

/-- What is replied: a number if there is one to tell, or why the request is refused. -/
abbrev Reply := Except StackFault (Option Int)

/-- What a stack replies to a request, and the stack after it. -/
def serve (s : CallStack size) : Request → Reply × CallStack size
  | .push a => (s.push a).map (Except.map fun _ => none) id
  | .pop => s.pop.map (Except.map some) id
  | .clear => (.ok none, s.clear)
  | .length => (.ok (some s.depth), s)

/-- What a list of at most `bound` addresses replies to a request, and the list after it. -/
def serveList (bound : Nat) (l : List Int) : Request → Reply × List Int
  | .push a => if l.length = bound then (.error (.overflow a), l) else (.ok none, l ++ [a])
  | .pop =>
    match l.getLast? with
    | some a => (.ok (some a), l.dropLast)
    | none => (.error .underflow, l)
  | .clear => (.ok none, [])
  | .length => (.ok (some l.length), l)

section InARow

variable {σ : Type} (answer : σ → Request → Reply × σ)

/-- The state after requests in a row. -/
def after (s : σ) (requests : List Request) : σ := requests.foldl (fun s r => (answer s r).2) s

/-- The replies to requests in a row. -/
def replies (s : σ) : List Request → List Reply
  | [] => []
  | r :: requests => (answer s r).1 :: replies (answer s r).2 requests

theorem after_append (s : σ) (l requests : List Request) :
    after answer s (l ++ requests) = after answer (after answer s l) requests :=
  List.foldl_append

theorem after_append_cons (s : σ) (l requests : List Request) (r : Request) :
    after answer s (l ++ r :: requests) = after answer (answer (after answer s l) r).2 requests :=
  after_append answer s l (r :: requests)

end InARow

/-! ### One request -/

/-- The ways in which a stack serves a request. -/
inductive Serves (s : CallStack size) : Request → Reply × CallStack size → Prop
  | pushed {a : Int} {s' : CallStack size} :
      s.inUse.length < size → s'.inUse = s.inUse ++ [a] → Serves s (.push a) (.ok none, s')
  | overflow {a : Int} : s.inUse.length = size → Serves s (.push a) (.error (.overflow a), s)
  | popped {a : Int} {s' : CallStack size} :
      s.inUse = s'.inUse ++ [a] → Serves s .pop (.ok (some a), s')
  | underflow : s.inUse = [] → Serves s .pop (.error .underflow, s)
  | cleared {s' : CallStack size} : s'.inUse = [] → Serves s .clear (.ok none, s')
  | counted : Serves s .length (.ok (some s.inUse.length), s)

/-- **What a request may do.** -/
theorem serves (s : CallStack size) (r : Request) : s.Serves r (s.serve r) := by
  cases r with
  | push a =>
    rcases s.push_cases a with ⟨hfull, e⟩ | ⟨hlt, s', e, hs⟩
    · simp only [serve, e]
      exact .overflow hfull
    · simp only [serve, e]
      exact .pushed hlt hs
  | pop =>
    rcases s.pop_cases with ⟨hnil, e⟩ | ⟨a, s', e, hs⟩
    · simp only [serve, e]
      exact .underflow hnil
    · simp only [serve, e]
      exact .popped hs
  | clear => exact .cleared inUse_empty
  | length =>
    simp only [serve, ← length_inUse]
    exact .counted

/-- **A request on the stack is the same request on the list of its addresses.** -/
theorem serve_inUse (s : CallStack size) (r : Request) :
    serveList size s.inUse r = ((s.serve r).1, (s.serve r).2.inUse) := by
  have hs := s.serves r
  generalize s.serve r = served at hs
  cases hs with
  | pushed hlt e => simp only [serveList, e, if_neg (Nat.ne_of_lt hlt)]
  | overflow hfull => simp only [serveList, if_pos hfull]
  | popped e => simp [serveList, e]
  | underflow hnil => simp [serveList, hnil]
  | cleared e => simp only [serveList, e]
  | counted => rfl

/-- A refused request leaves the stack as it was. -/
theorem serve_of_refused {r : Request} {fault : StackFault} (h : (s.serve r).1 = .error fault) :
    (s.serve r).2 = s := by
  have hs := s.serves r
  generalize s.serve r = served at h hs
  cases hs with
  | overflow | underflow => rfl
  | pushed | popped | cleared | counted => cases h

/-! ### Requests in a row -/

theorem after_inUse (s : CallStack size) (requests : List Request) :
    (after serve s requests).inUse = after (serveList size) s.inUse requests := by
  induction requests generalizing s with
  | nil => rfl
  | cons r requests ih =>
    show (after serve (s.serve r).2 requests).inUse =
      after (serveList size) (serveList size s.inUse r).2 requests
    rw [ih, serve_inUse]

theorem replies_inUse (s : CallStack size) (requests : List Request) :
    replies serve s requests = replies (serveList size) s.inUse requests := by
  induction requests generalizing s with
  | nil => rfl
  | cons r requests ih => rw [replies, replies, ih, serve_inUse]

/-! ### How long an address stays -/

/-- An address stays in its place as long as the depth stays above it. -/
theorem serve_stays {r : Request} (h : base ++ [a] <+: s.inUse)
    (hd : base.length < (s.serve r).2.depth) : base ++ [a] <+: (s.serve r).2.inUse := by
  have hs := s.serves r
  generalize s.serve r = served at hd hs
  rw [← length_inUse] at hd
  cases hs with
  | pushed hlt e =>
    show base ++ [a] <+: _
    rw [e]
    exact h.trans (List.prefix_append _ _)
  | popped e =>
    rw [e] at h
    rcases List.prefix_concat_iff.mp h with heq | hin
    · -- the address taken would be the one that the depth stays above
      rw [List.append_inj_left' heq rfl] at hd
      exact absurd hd (Nat.lt_irrefl _)
    · exact hin
  | cleared e =>
    rw [e] at hd
    exact absurd hd (Nat.not_lt_zero _)
  | overflow | underflow | counted => exact h

theorem after_stays {requests : List Request} (h : base ++ [a] <+: s.inUse)
    (hd : ∀ l, l <+: requests → base.length < (after serve s l).depth) :
    base ++ [a] <+: (after serve s requests).inUse := by
  induction requests using List.reverseRecOn with
  | nil => exact h
  | append_singleton requests r ih =>
    have hin := ih fun l hl => hd l (hl.trans (List.prefix_append _ _))
    have hlast := hd (requests ++ [r]) List.prefix_rfl
    rw [after_append] at hlast ⊢
    exact serve_stays hin hlast

/-- A push after which the depth is greater was not refused. -/
theorem pushed_of_deeper (h : s.depth < (s.serve (.push a)).2.depth) :
    s.inUse ++ [a] <+: (s.serve (.push a)).2.inUse := by
  have hs := s.serves (.push a)
  generalize s.serve (.push a) = served at h hs
  cases hs with
  | pushed hlt e => exact e ▸ List.prefix_rfl
  | overflow => exact absurd h (Nat.lt_irrefl _)

/-! ### Where an address comes from -/

/-- What is on the stack after a request was on it before, or was pushed by the request. -/
theorem stayed_or_pushed {r : Request} (h : base ++ [a] <+: (s.serve r).2.inUse) :
    base ++ [a] <+: s.inUse ∨ r = .push a ∧ s.inUse = base := by
  have hs := s.serves r
  generalize s.serve r = served at h hs
  cases hs with
  | pushed hlt e =>
    rw [e] at h
    rcases List.prefix_concat_iff.mp h with heq | hin
    · obtain ⟨rfl, hlast⟩ := List.append_inj' heq rfl
      obtain rfl := List.singleton_inj.mp hlast
      exact .inr ⟨rfl, rfl⟩
    · exact .inl hin
  | popped e =>
    rw [e]
    exact .inl (h.trans (List.prefix_append _ _))
  | cleared e =>
    rw [e] at h
    exact absurd (List.prefix_nil.mp h) (List.concat_ne_nil a base)
  | overflow | underflow | counted => exact .inl h

/-- What is on a stack that was empty at first was pushed at some time, and has stayed since. -/
theorem exists_push {requests : List Request}
    (h : base ++ [a] <+: (after serve (empty : CallStack size) requests).inUse) :
    ∃ before since, requests = before ++ .push a :: since ∧
      (after serve (empty : CallStack size) before).inUse = base ∧
      ∀ l, l <+: since →
        base ++ [a] <+: (after serve (empty : CallStack size) (before ++ .push a :: l)).inUse := by
  induction requests using List.reverseRecOn with
  | nil =>
    have hnil : base ++ [a] <+: (empty : CallStack size).inUse := h
    rw [inUse_empty] at hnil
    exact absurd (List.prefix_nil.mp hnil) (List.concat_ne_nil a base)
  | append_singleton requests r ih =>
    have hlast := h
    rw [after_append] at hlast
    rcases stayed_or_pushed hlast with hin | ⟨rfl, hbase⟩
    · -- pushed earlier, and the last request has left it in its place
      obtain ⟨before, since, rfl, hbase, hstays⟩ := ih hin
      refine ⟨before, since ++ [r], by simp, hbase, fun l hl => ?_⟩
      rcases List.prefix_concat_iff.mp hl with rfl | hl
      · simpa using h
      · exact hstays l hl
    · refine ⟨requests, [], rfl, hbase, fun l hl => ?_⟩
      rw [List.prefix_nil.mp hl]
      exact h

/-! ### Last in, first out -/

/-- `a` was pushed by the last push that has not been undone: since then the depth has not come
back to what it was before, and now there is nothing above `a`. -/
def PushedLast (s : CallStack size) (requests : List Request) (a : Int) : Prop :=
  ∃ before since, requests = before ++ .push a :: since ∧
    (∀ l, l <+: since →
      (after serve s before).depth < (after serve s (before ++ .push a :: l)).depth) ∧
    (after serve s requests).depth = (after serve s before).depth + 1

theorem pop_eq_ok_iff : s.pop.1 = .ok a ↔ ∃ l, s.inUse = l ++ [a] := by
  rcases s.pop_cases with ⟨hnil, e⟩ | ⟨b, s', e, hs⟩
  · simp [e, hnil]
  · rw [e, hs]
    constructor
    · intro hok
      exact ⟨s'.inUse, by rw [Except.ok.inj hok]⟩
    · rintro ⟨l, hl⟩
      rw [List.singleton_inj.mp (List.append_inj_right' hl rfl)]

/-- **Last in, first out.**  A pop takes the address of the last push that has not been undone. -/
theorem pop_after_iff {requests : List Request} :
    (after serve (empty : CallStack size) requests).pop.1 = .ok a ↔
      (empty : CallStack size).PushedLast requests a := by
  rw [pop_eq_ok_iff]
  constructor
  · rintro ⟨base, h⟩
    have hin : base ++ [a] <+: (after serve (empty : CallStack size) requests).inUse :=
      h ▸ List.prefix_rfl
    obtain ⟨before, since, rfl, rfl, hstays⟩ := exists_push hin
    refine ⟨before, since, rfl, fun l hl => ?_, ?_⟩
    · have hlen := (hstays l hl).length_le
      rwa [List.length_append, length_inUse, length_inUse] at hlen
    · rw [← length_inUse, h, List.length_append, length_inUse]
      rfl
  · rintro ⟨before, since, rfl, habove, hdepth⟩
    simp only [after_append_cons] at habove hdepth ⊢
    have hpushed := pushed_of_deeper (habove [] List.nil_prefix)
    have hin := after_stays hpushed fun l hl => by
      rw [length_inUse]
      exact habove l hl
    -- the depth leaves room for nothing behind the address
    exact ⟨_, (hin.eq_of_length (by simp [hdepth])).symm⟩

/-! ### The stack and the list -/

/-- A stack holds the list `l`, oldest address first, in the slots in use, and acts for it.  What it
refuses is a push if the list is full and a pop if it is empty, and a refusal changes nothing. -/
structure StandsFor (s : CallStack size) (l : List Int) : Prop where
  inUse : s.inUse = l
  depth : s.depth = l.length
  length_le : l.length ≤ size
  slots : s.slots.toList.length = size
  push_refused_iff : ∀ a, (∃ fault, (s.push a).1 = .error fault) ↔ l.length = size
  pop_refused_iff : (∃ fault, s.pop.1 = .error fault) ↔ l = []
  pushed : ∀ a s', s.push a = (.ok (), s') → s'.inUse = l ++ [a]
  popped : ∀ a s', s.pop = (.ok a, s') → l = s'.inUse ++ [a]
  kept : ∀ r fault, (s.serve r).1 = .error fault →
    (s.serve r).2.depth = s.depth ∧ (s.serve r).2.slots = s.slots

theorem standsFor_inUse (s : CallStack size) : s.StandsFor s.inUse where
  inUse := rfl
  depth := (length_inUse s).symm
  length_le := by
    rw [length_inUse]
    exact s.depth_le
  slots := Vector.length_toList
  push_refused_iff := by
    intro a
    rcases s.push_cases a with ⟨hfull, e⟩ | ⟨hlt, s', e, -⟩
    · rw [hfull]
      simp [e]
    · have hne : s.inUse.length ≠ size := Nat.ne_of_lt hlt
      simp only [e, hne, reduceCtorEq, exists_false]
  pop_refused_iff := by
    rcases s.pop_cases with ⟨hnil, e⟩ | ⟨a, s', e, hs⟩
    · simp [e, hnil]
    · simp [e, hs]
  pushed := fun _ _ => inUse_push
  popped := fun _ _ => inUse_pop
  kept := by
    intro r fault h
    rw [serve_of_refused h]
    exact ⟨rfl, rfl⟩

/-- **The call stack is a bounded list.**  Let anything be asked of a new stack in a row.  It
replies what a list of at most `size` addresses replies that was empty at first, refusals
included, and it stands for that list.  A pop takes the address pushed last among those that
remain. -/
theorem refines_bounded_list (size : Nat) (requests : List Request) :
    replies serve (empty : CallStack size) requests = replies (serveList size) [] requests ∧
      (after serve (empty : CallStack size) requests).StandsFor
        (after (serveList size) [] requests) ∧
      ∀ a, (after serve (empty : CallStack size) requests).pop.1 = .ok a ↔
        (empty : CallStack size).PushedLast requests a := by
  have hlist := after_inUse (empty : CallStack size) requests
  rw [inUse_empty] at hlist
  refine ⟨?_, ?_, fun a => pop_after_iff⟩
  · rw [replies_inUse, inUse_empty]
  · rw [← hlist]
    exact standsFor_inUse _

/-- A stack for one address, and one for none. -/
example :
    replies serve (empty : CallStack 1) [.push 2, .push 4, .length, .pop, .pop] =
      [.ok none, .error (.overflow 4), .ok (some 1), .ok (some 2), .error .underflow] ∧
    replies serve (empty : CallStack 0) [.push 2, .pop, .clear, .length] =
      [.error (.overflow 2), .error .underflow, .ok none, .ok (some 0)] := by
  decide

end ChipEight.CallStack
