/-
Runs of equal things in a list.

    runs [1, 1, 1, 0, 0] = [(1, 3), (0, 2)].
-/

namespace ChipEight

variable {α : Type} [DecidableEq α]

/-- Put a run in front of a list of runs. -/
def lengthen (r : α × Nat) : List (α × Nat) → List (α × Nat)
  | [] => [r]
  | s :: rest => if r.1 = s.1 then (s.1, r.2 + s.2) :: rest else r :: s :: rest

/-- The same runs, those of equal things beside each other made one. -/
def joined (rs : List (α × Nat)) : List (α × Nat) := rs.foldr lengthen []

/-- The maximal runs of a list, each with its length. -/
def runs (as : List α) : List (α × Nat) := joined (as.map fun a => (a, 1))

end ChipEight
