/-! # Sorting — insertion, which keeps the order of ties -/

namespace ShiftReduce

/-- Inserts a value before the first one that it is not behind of. -/
def insertBy {α : Type} (le : α → α → Bool) (x : α) : List α → List α
  | [] => [x]
  | y :: ys => if le x y then x :: y :: ys else y :: insertBy le x ys

/-- The members of a list in order.  Members that are tied keep their order. -/
def sortBy {α : Type} (le : α → α → Bool) (xs : List α) : List α :=
  xs.foldr (insertBy le) []

theorem mem_insertBy {α : Type} {le : α → α → Bool} {x z : α} {xs : List α} :
    z ∈ insertBy le x xs ↔ z = x ∨ z ∈ xs := by
  induction xs with
  | nil => simp [insertBy]
  | cons y ys ih =>
    unfold insertBy
    cases le x y with
    | true => simp
    | false => simp [ih, or_left_comm]

/-- Sorting keeps the members. -/
theorem mem_sortBy {α : Type} {le : α → α → Bool} {z : α} {xs : List α} :
    z ∈ sortBy le xs ↔ z ∈ xs := by
  unfold sortBy
  induction xs with
  | nil => simp
  | cons x xs ih => rw [List.foldr_cons, mem_insertBy, ih, List.mem_cons]

end ShiftReduce
