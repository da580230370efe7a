import Mathlib.Data.List.Nodup
import Mathlib.Data.List.Perm.Subperm
import ShiftReduce.GrowingSet

/-! # Coherent sets — the index agrees with the elements

    A growing set keeps its elements twice: in a list, by order of insertion,
    and in an index, by value.  The set is coherent if the list repeats nothing,
    the index has the places of the list, and the cursor is at most one position
    behind the last element.  Every operation keeps sets coherent, and on
    coherent sets it does what its name says to the list of elements:

    * adding appends what is new, in the order in which it comes;
    * removing, subtracting and keeping are filters of the list. -/

namespace ShiftReduce

namespace GrowingSet

variable {α : Type} [DecidableEq α]

/-- The list and the index of a set have the same elements at the same places,
    and the cursor is inside the list or right behind it. -/
structure Coherent (s : GrowingSet α) : Prop where
  nodup : s.items.Nodup
  indexed : ∀ x k, s.index.place? x = some k ↔ s.items[k]? = some x
  cursor_le : s.cursor ≤ s.size + 1

/-- The empty set is coherent. -/
theorem coherent_empty : Coherent (empty : GrowingSet α) where
  nodup := List.nodup_nil
  indexed := fun x k => by simp [empty, Index.place?_empty]
  cursor_le := Nat.zero_le _

namespace Coherent

variable {s t : GrowingSet α}

/-- The index finds exactly the elements. -/
theorem contains_iff (h : s.Coherent) {x : α} : s.contains x = true ↔ x ∈ s.items := by
  rw [contains, Option.isSome_iff_exists, List.mem_iff_getElem?]
  exact exists_congr fun k => h.indexed x k

/-- What is no member has no place. -/
theorem place?_eq_none (h : s.Coherent) {x : α} (hx : x ∉ s.items) : s.index.place? x = none := by
  cases hplace : s.index.place? x with
  | none => rfl
  | some k => exact absurd (List.mem_of_getElem? ((h.indexed x k).mp hplace)) hx

/-! ## Adding -/

/-- Adding a member changes nothing. -/
theorem add_of_mem (h : s.Coherent) {x : α} (hx : x ∈ s.items) : s.add x = s := by
  rw [GrowingSet.add, if_pos (h.contains_iff.mpr hx)]

/-- A new member goes behind the others. -/
theorem add_of_notMem (h : s.Coherent) {x : α} (hx : x ∉ s.items) :
    s.add x = { s with items := s.items ++ [x], index := s.index.note x s.items.length } := by
  rw [GrowingSet.add, if_neg (mt h.contains_iff.mp hx)]

/-- Adding keeps a set coherent. -/
theorem add (h : s.Coherent) (x : α) : (s.add x).Coherent := by
  by_cases hx : x ∈ s.items
  · rw [h.add_of_mem hx]
    exact h
  · rw [h.add_of_notMem hx]
    refine ⟨List.nodup_append.mpr ⟨h.nodup, List.nodup_singleton x, ?_⟩, ?_, ?_⟩
    · intro a ha b hb
      rw [List.mem_singleton.mp hb]
      rintro rfl
      exact hx ha
    · -- the new element has the place behind the others, which keep theirs
      intro y k
      rw [Index.place?_note]
      by_cases hy : y = x
      · subst hy
        rw [if_pos rfl, Option.some_inj]
        constructor
        · rintro rfl
          exact List.getElem?_concat_length
        · intro hk
          rcases Nat.lt_trichotomy k s.items.length with hlt | heq | hgt
          · rw [List.getElem?_append_left hlt] at hk
            exact absurd (List.mem_of_getElem? hk) hx
          · exact heq.symm
          · rw [List.getElem?_eq_none (by simp; omega)] at hk
            cases hk
      · rw [if_neg hy, h.indexed]
        by_cases hlt : k < s.items.length
        · rw [List.getElem?_append_left hlt]
        · rw [List.getElem?_eq_none (Nat.le_of_not_lt hlt),
            List.getElem?_append_right (Nat.le_of_not_lt hlt)]
          constructor
          · rintro ⟨⟩
          · intro hk
            exact absurd (List.mem_singleton.mp (List.mem_of_getElem? hk)) hy
    · have := h.cursor_le
      simp only [size, List.length_append, List.length_singleton] at this ⊢
      omega

/-- So does adding many. -/
theorem addAll (h : s.Coherent) (xs : List α) : (s.addAll xs).Coherent := by
  induction xs generalizing s with
  | nil => exact h
  | cons x xs ih => exact ih (h.add x)

/-- What is there stays, and exactly the values that were added come behind it. -/
theorem addAll_extends (h : s.Coherent) (xs : List α) :
    s.items <+: (s.addAll xs).items ∧ ∀ x, x ∈ (s.addAll xs).items ↔ x ∈ s.items ∨ x ∈ xs := by
  induction xs generalizing s with
  | nil => exact ⟨List.prefix_rfl, fun x => by simp [GrowingSet.addAll]⟩
  | cons y xs ih =>
      obtain ⟨hbegins, hmem⟩ := ih (h.add y)
      show s.items <+: ((s.add y).addAll xs).items ∧ _
      by_cases hy : y ∈ s.items
      · rw [h.add_of_mem hy] at hbegins hmem
        refine ⟨by rw [h.add_of_mem hy]; exact hbegins, fun x => ?_⟩
        show x ∈ ((s.add y).addAll xs).items ↔ _
        rw [h.add_of_mem hy, hmem, List.mem_cons]
        exact ⟨Or.imp_right Or.inr, fun hx => hx.elim Or.inl fun hx =>
          hx.elim (fun heq => Or.inl (heq ▸ hy)) Or.inr⟩
      · have hitems : (s.add y).items = s.items ++ [y] := by rw [h.add_of_notMem hy]
        rw [hitems] at hbegins hmem
        refine ⟨(List.prefix_append _ _).trans hbegins, fun x => ?_⟩
        show x ∈ ((s.add y).addAll xs).items ↔ _
        rw [hmem, List.mem_append, List.mem_singleton, List.mem_cons, or_assoc]

/-- Of values that differ from each other, those that are new are appended. -/
theorem addAll_items (h : s.Coherent) {xs : List α} (hxs : xs.Nodup) :
    (s.addAll xs).items = s.items ++ xs.filter fun x => decide (x ∉ s.items) := by
  induction xs generalizing s with
  | nil => exact (List.append_nil _).symm
  | cons y xs ih =>
      obtain ⟨hy, hxs⟩ := List.nodup_cons.mp hxs
      show ((s.add y).addAll xs).items = _
      rw [ih (h.add y) hxs]
      by_cases hmem : y ∈ s.items
      · rw [h.add_of_mem hmem, List.filter_cons_of_neg (by simpa using hmem)]
      · have hitems : (s.add y).items = s.items ++ [y] := by rw [h.add_of_notMem hmem]
        rw [hitems, List.filter_cons_of_pos (by simpa using hmem), List.append_assoc,
          List.singleton_append]
        -- none of the values that follow is the one that has just been added
        refine congrArg (s.items ++ y :: ·) (List.filter_congr ?_)
        intro x hx
        have hne : x ≠ y := fun heq => hy (heq ▸ hx)
        simp [hne]

/-- Adding does not move the cursor. -/
theorem addAll_cursor (s : GrowingSet α) (xs : List α) : (s.addAll xs).cursor = s.cursor := by
  induction xs generalizing s with
  | nil => rfl
  | cons x xs ih =>
      show ((s.add x).addAll xs).cursor = s.cursor
      rw [ih, GrowingSet.add]
      split <;> rfl

end Coherent

theorem coherent_ofList (xs : List α) : (ofList xs).Coherent :=
  coherent_empty.addAll xs

theorem mem_ofList {xs : List α} {x : α} : x ∈ (ofList xs).items ↔ x ∈ xs := by
  rw [ofList, (coherent_empty.addAll_extends xs).2]
  simp [empty]

/-- A set that is made of a list keeps its order, if nothing stands there twice. -/
theorem ofList_items {xs : List α} (hxs : xs.Nodup) : (ofList xs).items = xs := by
  rw [ofList, coherent_empty.addAll_items hxs]
  simp [empty]

namespace Coherent

variable {s t : GrowingSet α}

/-! ## Removing -/

theorem remove_of_notMem (h : s.Coherent) {x : α} (hx : x ∉ s.items) : s.remove x = s := by
  rw [GrowingSet.remove, h.place?_eq_none hx]

/-- Removing the element at a place. -/
theorem remove_at (h : s.Coherent) {x : α} {k : Nat} (hk : s.items[k]? = some x) :
    s.remove x =
      { items := s.items.eraseIdx k
        index := (s.index.forget x).noteFrom k ((s.items.eraseIdx k).drop k)
        cursor := if k < s.cursor then s.cursor - 1 else s.cursor } := by
  rw [GrowingSet.remove, (h.indexed x k).mpr hk]

/-- What moves up into the gap is noted anew, and what stands before it keeps
    its place. -/
theorem indexed_gap (h : s.Coherent) {x : α} {k : Nat} (hk : s.items[k]? = some x) (y : α)
    (j : Nat) : ((s.index.forget x).noteFrom k ((s.items.eraseIdx k).drop k)).place? y = some j
      ↔ (s.items.eraseIdx k)[j]? = some y := by
  have hnodup : (s.items.eraseIdx k).Nodup := h.nodup.sublist (List.eraseIdx_sublist _ _)
  rw [Index.place?_noteFrom (hnodup.sublist (List.drop_sublist _ _)), Index.place?_forget]
  constructor
  · rintro (⟨i, hi, rfl⟩ | ⟨hy, hplace⟩)
    · rwa [List.getElem?_drop] at hi
    · split at hplace
      · cases hplace
      · rename_i hyx
        have hj := (h.indexed y j).mp hplace
        rcases Nat.lt_trichotomy j k with hjk | rfl | hkj
        · rwa [List.getElem?_eraseIdx_of_lt hjk]
        · exact absurd (Option.some.inj (hj.symm.trans hk)) hyx
        · -- an element behind the gap has moved up, so it is among those noted anew
          refine absurd (List.mem_of_getElem? (i := j - 1 - k) ?_) hy
          rw [List.getElem?_drop, List.getElem?_eraseIdx_of_ge (by omega),
            show k + (j - 1 - k) + 1 = j by omega]
          exact hj
  · intro hj
    rcases Nat.lt_or_ge j k with hjk | hkj
    · have hold := hj
      rw [List.getElem?_eraseIdx_of_lt hjk] at hold
      have hyx : y ≠ x := by
        rintro rfl
        have heq := (List.getElem?_inj (List.getElem?_eq_some_iff.mp hold).1 h.nodup).mp
          (hold.trans hk.symm)
        omega
      refine Or.inr ⟨?_, by rw [if_neg hyx]; exact (h.indexed y j).mpr hold⟩
      -- nothing stands both before the gap and behind it
      intro hy
      obtain ⟨i, hi⟩ := List.mem_iff_getElem?.mp hy
      rw [List.getElem?_drop] at hi
      have heq := (List.getElem?_inj (List.getElem?_eq_some_iff.mp hj).1 hnodup).mp
        (hj.trans hi.symm)
      omega
    · exact Or.inl ⟨j - k, by rw [List.getElem?_drop, Nat.add_sub_cancel' hkj]; exact hj,
        (Nat.add_sub_cancel' hkj).symm⟩

/-- Removing keeps a set coherent, and moves the cursor back if it must. -/
theorem remove (h : s.Coherent) (x : α) : (s.remove x).Coherent := by
  by_cases hx : x ∈ s.items
  · obtain ⟨k, hk⟩ := List.mem_iff_getElem?.mp hx
    obtain ⟨hlt, -⟩ := List.getElem?_eq_some_iff.mp hk
    rw [h.remove_at hk]
    refine ⟨h.nodup.sublist (List.eraseIdx_sublist _ _), h.indexed_gap hk, ?_⟩
    have hcursor := h.cursor_le
    show (if k < s.cursor then s.cursor - 1 else s.cursor) ≤ (s.items.eraseIdx k).length + 1
    rw [List.length_eraseIdx_of_lt hlt]
    rw [size] at hcursor
    split <;> omega
  · rw [h.remove_of_notMem hx]
    exact h

/-- Removing a value keeps all other elements in their order. -/
theorem remove_items (h : s.Coherent) (x : α) :
    (s.remove x).items = s.items.filter fun y => decide (y ≠ x) := by
  by_cases hx : x ∈ s.items
  · obtain ⟨k, hk⟩ := List.mem_iff_getElem?.mp hx
    obtain ⟨hlt, rfl⟩ := List.getElem?_eq_some_iff.mp hk
    rw [h.remove_at hk]
    show s.items.eraseIdx k = _
    rw [← h.nodup.erase_getElem k hlt, h.nodup.erase_eq_filter]
    exact List.filter_congr fun y _ => (decide_not).symm
  · rw [h.remove_of_notMem hx]
    refine (List.filter_eq_self.mpr ?_).symm
    intro y hy
    simpa using fun heq : y = x => hx (heq ▸ hy)

/-- Removing values one after the other. -/
theorem foldl_remove (h : s.Coherent) (xs : List α) :
    (xs.foldl GrowingSet.remove s).Coherent ∧
      (xs.foldl GrowingSet.remove s).items = s.items.filter fun y => decide (y ∉ xs) := by
  induction xs generalizing s with
  | nil => exact ⟨h, by simp⟩
  | cons x xs ih =>
      obtain ⟨hcoherent, hitems⟩ := ih (h.remove x)
      refine ⟨hcoherent, ?_⟩
      rw [List.foldl_cons, hitems, h.remove_items, List.filter_filter]
      refine List.filter_congr fun y _ => ?_
      simp [Bool.and_comm]

/-- Taking the members of another set out keeps a set coherent. -/
theorem difference (h : s.Coherent) (t : GrowingSet α) : (s.difference t).Coherent :=
  (h.foldl_remove t.items).1

theorem difference_items (h : s.Coherent) (t : GrowingSet α) :
    (s.difference t).items = s.items.filter fun x => decide (x ∉ t.items) :=
  (h.foldl_remove t.items).2

/-- Keeping is removing what fails the test. -/
theorem keep_eq (s : GrowingSet α) (test : α → Bool) :
    s.keep test = (s.items.filter fun x => !test x).foldl GrowingSet.remove s := by
  rw [GrowingSet.keep, List.foldl_filter]
  congr 1
  funext t x
  cases test x <;> rfl

/-- Taking out what fails a test keeps a set coherent. -/
theorem keep (h : s.Coherent) (test : α → Bool) : (s.keep test).Coherent := by
  rw [keep_eq]
  exact (h.foldl_remove _).1

/-- What is left keeps its order. -/
theorem keep_items (h : s.Coherent) (test : α → Bool) :
    (s.keep test).items = s.items.filter test := by
  rw [keep_eq, (h.foldl_remove _).2]
  refine List.filter_congr fun x hx => ?_
  simp [hx]

/-- Removing from an array that shifts keeps a set coherent, whatever is read there. -/
theorem drainFrom (count k : Nat) (array : List α) (h : s.Coherent) :
    (GrowingSet.drainFrom count k array s).Coherent := by
  induction count generalizing k array s with
  | zero => exact h
  | succ count ih =>
      rw [GrowingSet.drainFrom]
      split
      · exact h
      · exact ih _ _ (h.remove _)

/-- So a set stays coherent when it is taken out of itself. -/
theorem drain (h : s.Coherent) : s.drain.Coherent :=
  h.drainFrom _ _ _

/-! ## Two sets -/

/-- Putting the members of another set in keeps a set coherent. -/
theorem union (h : s.Coherent) (t : GrowingSet α) : (s.union t).Coherent :=
  h.addAll t.items

/-- The new members go behind the others, in their own order. -/
theorem union_items (h : s.Coherent) (ht : t.Coherent) :
    (s.union t).items = s.items ++ t.items.filter fun x => decide (x ∉ s.items) :=
  h.addAll_items ht.nodup

/-- Absorbing a set is the same as adding its elements. -/
theorem absorb_eq (h : s.Coherent) (ht : t.Coherent) :
    (s.absorb t).Coherent ∧ (s.absorb t).cursor = s.cursor ∧
      (s.absorb t).items = s.items ++ t.items.filter fun x => decide (x ∉ s.items) := by
  have hnew := ht.difference_items s
  rw [GrowingSet.absorb]
  split
  · rename_i hempty
    rw [isEmpty, List.isEmpty_iff] at hempty
    rw [← hnew, hempty, List.append_nil]
    exact ⟨h, rfl, rfl⟩
  · refine ⟨h.union _, addAll_cursor _ _, ?_⟩
    rw [h.union_items (ht.difference s), hnew, List.filter_filter]
    simp

/-- Two sets are compared as sets. -/
theorem sameElements_iff (h : s.Coherent) (ht : t.Coherent) :
    s.sameElements t = true ↔ ∀ x, x ∈ s.items ↔ x ∈ t.items := by
  simp only [sameElements, Bool.and_eq_true, beq_iff_eq, List.all_eq_true, size, h.contains_iff]
  constructor
  · rintro ⟨hlen, hsub⟩ x
    have hperm : t.items.Perm s.items := (ht.nodup.subperm hsub).perm_of_length_le (by omega)
    exact hperm.symm.mem_iff
  · intro hsame
    exact ⟨((List.perm_ext_iff_of_nodup h.nodup ht.nodup).mpr hsame).length_eq,
      fun x hx => (hsame x).mpr hx⟩

/-! ## Iteration -/

theorem restart (h : s.Coherent) : s.restart.Coherent :=
  ⟨h.nodup, h.indexed, Nat.zero_le _⟩

/-- Moving the cursor on keeps a set coherent. -/
theorem advance (h : s.Coherent) : s.advance.2.Coherent := by
  rw [GrowingSet.advance]
  split
  · exact h
  · rename_i hle
    exact ⟨h.nodup, h.indexed, Nat.succ_le_succ (Nat.le_of_not_lt hle)⟩

end Coherent

end GrowingSet

end ShiftReduce
