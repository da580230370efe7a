import Mathlib.Data.List.Induction
import Mathlib.Data.List.Nodup

/-! # First occurrences — lists without their repetitions

    `List.eraseDups` keeps the first occurrence of every member, so a list that
    grows at its end gains a first occurrence exactly when the new member is not
    there already. -/

namespace ShiftReduce

variable {α : Type} [BEq α] [LawfulBEq α]

/-- Nothing is added by what is there already. -/
theorem eraseDups_append_of_subset {xs ys : List α} (h : ys ⊆ xs) :
    (xs ++ ys).eraseDups = xs.eraseDups := by
  have hnew : ys.removeAll xs = [] := by
    refine List.filter_eq_nil_iff.mpr ?_
    intro y hy
    simpa using h hy
  rw [List.eraseDups_append, hnew, List.eraseDups_nil, List.append_nil]

/-- A last element stays only if it is new. -/
theorem eraseDups_concat (xs : List α) (x : α) :
    (xs ++ [x]).eraseDups = if x ∈ xs then xs.eraseDups else xs.eraseDups ++ [x] := by
  split
  · rename_i hx
    exact eraseDups_append_of_subset (List.cons_subset.mpr ⟨hx, List.nil_subset xs⟩)
  · rename_i hx
    have hnew : [x].removeAll xs = [x] := by simp [List.removeAll, hx]
    rw [List.eraseDups_append, hnew, List.eraseDups_cons]
    rfl

/-- First occurrences are listed once each. -/
theorem nodup_eraseDups (xs : List α) : xs.eraseDups.Nodup := by
  induction xs using List.reverseRecOn with
  | nil => exact List.nodup_nil
  | append_singleton xs x ih =>
      rw [eraseDups_concat]
      split
      · exact ih
      · rename_i hx
        refine List.nodup_append.mpr ⟨ih, List.nodup_singleton x, ?_⟩
        rintro a ha b hb rfl
        obtain rfl := List.mem_singleton.mp hb
        exact hx (List.mem_eraseDups.mp ha)

/-- Leaving out what was in front leaves the other first occurrences. -/
theorem eraseDups_cons_of_notMem {x : α} {xs : List α} (hx : x ∉ xs) :
    (x :: xs).eraseDups = x :: xs.eraseDups := by
  have hrest : xs.filter (fun y => !y == x) = xs := by
    refine List.filter_eq_self.mpr ?_
    intro y hy
    have hne : y ≠ x := fun h => hx (h ▸ hy)
    simpa using hne
  rw [List.eraseDups_cons, hrest]

end ShiftReduce
