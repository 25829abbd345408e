/-
The call stack as a list.

The addresses in use, oldest first, are a list that is changed at its end only:

    push:   inUse  →  inUse ++ [address]        pop:   inUse ++ [address]  →  inUse.

A push is refused on a full stack and a pop on an empty one, and nothing else is refused.  A
refusal leaves the stack as it was (`push_of_full`, `pop_of_empty`).  All that an operation can do
is in `push_cases` and `pop_cases`.
-/
import ChipEight.CallStack

namespace ChipEight.CallStack

variable {size : Nat} {s s' : CallStack size} {a : Int}

@[simp] theorem inUse_empty : (empty : CallStack size).inUse = [] := by
  simp [empty, inUse]

@[simp] theorem length_inUse (s : CallStack size) : s.inUse.length = s.depth := by
  simp [inUse, s.depth_le]

/-! ### Push -/

theorem push_of_full (h : s.depth = size) (a : Int) : s.push a = (.error (.overflow a), s) := by
  rw [push, dif_neg (by omega)]

theorem push_of_lt (h : s.depth < size) (a : Int) : ∃ s', s.push a = (.ok (), s') := by
  rw [push, dif_pos h]
  exact ⟨_, rfl⟩

theorem inUse_push (h : s.push a = (.ok (), s')) : s'.inUse = s.inUse ++ [a] := by
  unfold push at h
  split at h
  · rename_i hs
    obtain rfl := (Prod.mk.inj h).2
    -- the slot written is the first one behind those in use
    have hlen : s.depth < (s.slots.toList.set s.depth a).length := by simp [hs]
    show ((s.slots.set s.depth a hs).toList).take (s.depth + 1) = _
    rw [Vector.toList_set, List.take_succ_eq_append_getElem hlen,
      List.take_set_of_le (Nat.le_refl _), List.getElem_set_self]
    rfl
  · cases (Prod.mk.inj h).1

/-- A push is refused on a full stack, and else the address comes behind those in use. -/
theorem push_cases (s : CallStack size) (a : Int) :
    s.inUse.length = size ∧ s.push a = (.error (.overflow a), s) ∨
      s.inUse.length < size ∧ ∃ s', s.push a = (.ok (), s') ∧ s'.inUse = s.inUse ++ [a] := by
  rw [length_inUse]
  rcases Nat.lt_or_ge s.depth size with h | h
  · obtain ⟨s', e⟩ := push_of_lt h a
    exact .inr ⟨h, s', e, inUse_push e⟩
  · have hfull : s.depth = size := Nat.le_antisymm s.depth_le h
    exact .inl ⟨hfull, push_of_full hfull a⟩

/-! ### Pop -/

theorem pop_of_empty (h : s.depth = 0) : s.pop = (.error .underflow, s) := by
  rw [pop, dif_neg (by omega)]

theorem pop_of_pos (h : 0 < s.depth) : ∃ a s', s.pop = (.ok a, s') := by
  rw [pop, dif_pos h]
  exact ⟨_, _, rfl⟩

theorem inUse_pop (h : s.pop = (.ok a, s')) : s.inUse = s'.inUse ++ [a] := by
  unfold pop at h
  split at h
  · rename_i hs
    obtain ⟨ha, rfl⟩ := Prod.mk.inj h
    obtain rfl := Except.ok.inj ha
    -- the slot read is the last one in use, and it is given up by the depth alone
    have hle := s.depth_le
    have hlen : s.depth - 1 < s.slots.toList.length := by simp; omega
    show s.slots.toList.take s.depth = s.slots.toList.take (s.depth - 1) ++ [s.slots[s.depth - 1]]
    have hd : s.depth = s.depth - 1 + 1 := by omega
    rw [← Vector.getElem_toList, ← List.take_succ_eq_append_getElem hlen, ← hd]
    exact hlen
  · cases (Prod.mk.inj h).1

/-- A pop is refused on an empty stack, and else takes the last of the addresses in use. -/
theorem pop_cases (s : CallStack size) :
    s.inUse = [] ∧ s.pop = (.error .underflow, s) ∨
      ∃ a s', s.pop = (.ok a, s') ∧ s.inUse = s'.inUse ++ [a] := by
  rcases Nat.eq_zero_or_pos s.depth with h | h
  · have hnil : s.inUse = [] := List.length_eq_zero_iff.mp (by rw [length_inUse, h])
    exact .inl ⟨hnil, pop_of_empty h⟩
  · obtain ⟨a, s', e⟩ := pop_of_pos h
    exact .inr ⟨a, s', e, inUse_pop e⟩

end ChipEight.CallStack
