import Mathlib.Data.List.TakeDrop
import ShiftReduce.Proofs.GrowingSet.Registry

/-! # Draining — what is left of a set that is removed from itself

    A set that is removed from itself is read while it changes.  Every removal moves
    the elements behind it up by one place, so that the place which is read next
    holds the element after the next one.  Therefore every second element is passed
    over.  Behind the last element the array keeps repeating it, so what is read
    there removes the last element, if it is still there, and nothing else.  What is
    left are the elements at the odd places except the last element
    (`Coherent.drain_items`); nothing is left of two elements at most. -/

namespace ShiftReduce

namespace GrowingSet

variable {α : Type}

/-- Every second element but the last one. -/
def passedOver : List α → List α
  | _ :: y :: z :: rest => y :: passedOver (z :: rest)
  | _ => []

/-- What is passed over are the members at odd places that have two more behind them. -/
theorem getElem?_passedOver : ∀ (xs : List α) (k : Nat),
    (passedOver xs)[k]? = if 2 * k + 2 < xs.length then xs[2 * k + 1]? else none
  | [], k => by simp [passedOver]
  | [_], k => by simp [passedOver]
  | [_, _], k => by
      rw [if_neg (by simp)]
      rfl
  | x :: y :: z :: rest, 0 => by simp [passedOver]
  | x :: y :: z :: rest, k + 1 => by
      rw [passedOver, List.getElem?_cons_succ, getElem?_passedOver (z :: rest) k]
      simp only [List.length_cons, show 2 * (k + 1) + 1 = 2 * k + 1 + 1 + 1 by omega,
        List.getElem?_cons_succ]
      refine if_congr ?_ rfl rfl
      omega

/-- Nothing is passed over in a list of two elements at most. -/
theorem passedOver_eq_nil_iff (xs : List α) : passedOver xs = [] ↔ xs.length ≤ 2 := by
  match xs with
  | [] => simp [passedOver]
  | [_] => simp [passedOver]
  | [_, _] => simp [passedOver]
  | _ :: _ :: _ :: _ => simp [passedOver]

variable [DecidableEq α] {s : GrowingSet α}

namespace Coherent

/-- Removing an element that stands between others. -/
theorem remove_middle (h : s.Coherent) {front back : List α} {x : α}
    (hs : s.items = front ++ x :: back) :
    s.index.place? x = some front.length ∧ (s.remove x).items = front ++ back := by
  have hk : s.items[front.length]? = some x := by
    rw [hs, List.getElem?_append_right (Nat.le_refl _), Nat.sub_self, List.getElem?_cons_zero]
  refine ⟨(h.indexed x _).mpr hk, ?_⟩
  rw [h.remove_at hk]
  show s.items.eraseIdx front.length = front ++ back
  rw [hs, List.eraseIdx_append_of_length_le (Nat.le_refl _), Nat.sub_self, List.eraseIdx_cons_zero]

/-- The array after that: the last element stands in it once more. -/
theorem closeGap_middle (h : s.Coherent) {front back : List α} {x : α}
    (hs : s.items = front ++ x :: back) (tail : List α) :
    s.closeGap x (front ++ x :: back ++ tail)
      = front ++ back ++ (x :: back).getLast (List.cons_ne_nil x back) :: tail := by
  have htake : (front ++ x :: back ++ tail).take s.size = front ++ x :: back := by
    rw [size, hs, List.take_left]
  have hdrop : (front ++ x :: back).drop (front.length + 1) = back := by
    rw [← List.drop_drop, List.drop_left]
    rfl
  have hlast : (x :: back ++ tail).drop back.length
      = (x :: back).getLast (List.cons_ne_nil x back) :: tail := by
    have hsub := List.drop_length_sub_one (List.cons_ne_nil x back)
    rw [List.length_cons, Nat.add_sub_cancel] at hsub
    rw [List.drop_append_of_le_length (by simp), hsub]
    rfl
  have hfits : back.length ≤ (x :: back ++ tail).length := by
    simp only [List.length_append, List.length_cons]
    omega
  rw [closeGap, (h.remove_middle hs).1]
  dsimp only
  rw [htake, hdrop, List.append_assoc, overwrite_append, hlast, List.take_of_length_le hfits]

/-- What is no element any more is read without effect. -/
theorem drainFrom_stale (h : s.Coherent) {array : List α} {k : Nat}
    (hstale : ∀ x ∈ array.drop k, x ∉ s.items) (count : Nat) :
    GrowingSet.drainFrom count k array s = s := by
  induction count generalizing k with
  | zero => rfl
  | succ count ih =>
      rw [GrowingSet.drainFrom]
      cases hx : array[k]? with
      | none => rfl
      | some x =>
          have hmem : x ∉ s.items := by
            refine hstale x (List.mem_of_getElem? (i := 0) ?_)
            rw [List.getElem?_drop]
            exact hx
          dsimp only
          rw [h.remove_of_notMem hmem, closeGap, h.place?_eq_none hmem]
          refine ih fun y hy => hstale y ?_
          rw [← List.drop_drop] at hy
          exact List.mem_of_mem_drop hy

/-- Reading the element in the middle removes it. -/
theorem drainFrom_middle (h : s.Coherent) {front back : List α} {x : α}
    (hs : s.items = front ++ x :: back) (tail : List α) (count : Nat) :
    GrowingSet.drainFrom (count + 1) front.length (front ++ x :: back ++ tail) s
      = GrowingSet.drainFrom count (front.length + 1)
          (front ++ back ++ (x :: back).getLast (List.cons_ne_nil x back) :: tail) (s.remove x) := by
  have hread : (front ++ x :: back ++ tail)[front.length]? = some x := by
    rw [List.append_assoc, List.getElem?_append_right (Nat.le_refl _), Nat.sub_self]
    rfl
  rw [GrowingSet.drainFrom, hread]
  dsimp only
  rw [h.closeGap_middle hs]

/-- As soon as only the last element is read, it is removed and nothing else. -/
theorem drainFrom_last (h : s.Coherent) {front tail : List α} {y : α}
    (hs : s.items = front ++ [y]) (htail : ∀ x ∈ tail, x = y) {k : Nat}
    (hk : front.length ≤ k) (hlt : k ≤ front.length + tail.length) (count : Nat) :
    GrowingSet.drainFrom (count + 1) k (front ++ [y] ++ tail) s = s.remove y := by
  have hdrop : (front ++ [y] ++ tail).drop front.length = y :: tail := by
    rw [List.append_assoc, List.drop_left]
    rfl
  have hsame : ∀ {j : Nat}, front.length ≤ j → ∀ x ∈ (front ++ [y] ++ tail).drop j, x = y := by
    intro j hj x hx
    obtain ⟨n, rfl⟩ := Nat.exists_eq_add_of_le hj
    rw [← List.drop_drop, hdrop] at hx
    rcases List.mem_cons.mp (List.mem_of_mem_drop hx) with rfl | hx
    · rfl
    · exact htail x hx
  have hread : (front ++ [y] ++ tail)[k]? = some y := by
    have hlength : k < (front ++ [y] ++ tail).length := by
      simp only [List.length_append, List.length_singleton]
      omega
    have hmem : (front ++ [y] ++ tail)[k] ∈ (front ++ [y] ++ tail).drop k := by
      rw [List.drop_eq_getElem_cons hlength]
      exact List.mem_cons_self
    rw [List.getElem?_eq_getElem hlength, hsame hk _ hmem]
  -- removing the last member leaves the ranged
  -- array as it is, and what is read later is gone
  have hgap := h.closeGap_middle hs tail
  rw [List.append_nil, List.getLast_singleton] at hgap
  rw [GrowingSet.drainFrom, hread]
  dsimp only
  rw [hgap, List.append_cons]
  refine (h.remove y).drainFrom_stale ?_ count
  intro x hx
  rw [hsame (Nat.le_succ_of_le hk) x hx, h.remove_items, List.mem_filter]
  simp

/-- The front of the array has been read, and behind the rest stands nothing but its
    last element: every second element of the rest is passed over. -/
theorem drainFrom_items : ∀ (rest : List α) {front tail : List α} {s : GrowingSet α} {count : Nat},
    s.Coherent → s.items = front ++ rest → (∀ x ∈ tail, rest.getLast? = some x) →
      rest.length ≤ count →
        (GrowingSet.drainFrom count front.length (front ++ rest ++ tail) s).items
          = front ++ passedOver rest
  | [], front, tail, s, count, h, hs, htail, _ => by
      have hempty : tail = [] := List.eq_nil_iff_forall_not_mem.mpr fun x hx => nomatch htail x hx
      rw [h.drainFrom_stale (by simp [hempty])]
      exact hs
  | [x], front, tail, s, count, h, hs, htail, hcount => by
      obtain ⟨count, rfl⟩ := Nat.exists_eq_add_of_le' hcount
      have hlast := h.drainFrom_last hs (fun a ha => (Option.some.inj (htail a ha)).symm)
        (Nat.le_refl _) (Nat.le_add_right _ _) count
      show (GrowingSet.drainFrom (count + 1) _ _ s).items = _
      rw [hlast]
      exact (h.remove_middle hs).2
  | [x, y], front, tail, s, count, h, hs, htail, hcount => by
      obtain ⟨count, rfl⟩ := Nat.exists_eq_add_of_le' hcount
      have hitems := (h.remove_middle hs).2
      -- the second place is behind the end already, where the last element stands
      have hlast : GrowingSet.drainFrom (count + 1) (front.length + 1) (front ++ [y] ++ y :: tail)
          (s.remove x) = (s.remove x).remove y :=
        (h.remove x).drainFrom_last hitems
          (fun a ha => (List.mem_cons.mp ha).elim id fun ha => (Option.some.inj (htail a ha)).symm)
          (Nat.le_succ _) (by simp) count
      show (GrowingSet.drainFrom (count + 1 + 1) _ _ s).items = _
      rw [h.drainFrom_middle hs, show [x, y].getLast (List.cons_ne_nil x [y]) = y from rfl, hlast]
      exact ((h.remove x).remove_middle hitems).2
  | x :: y :: z :: rest, front, tail, s, count, h, hs, htail, hcount => by
      obtain ⟨count, rfl⟩ := Nat.exists_eq_add_of_le' hcount
      have hitems := (h.remove_middle hs).2
      rw [List.append_cons] at hitems
      have hlast : (x :: y :: z :: rest).getLast (List.cons_ne_nil _ _)
          = (z :: rest).getLast (List.cons_ne_nil _ _) := by
        rw [List.getLast_cons (List.cons_ne_nil _ _), List.getLast_cons (List.cons_ne_nil _ _)]
      have htail' : ∀ a ∈ (z :: rest).getLast (List.cons_ne_nil _ _) :: tail,
          (z :: rest).getLast? = some a := by
        intro a ha
        rcases List.mem_cons.mp ha with rfl | ha
        · exact List.getLast?_eq_some_getLast _
        · rw [← htail a ha, List.getLast?_cons_cons, List.getLast?_cons_cons]
      -- the second element is passed over and belongs to the front from now on
      have hnext := drainFrom_items (z :: rest) (h.remove x) hitems htail'
        (show (z :: rest).length ≤ count + rest.length + 2 by simp only [List.length_cons]; omega)
      rw [List.length_append, List.length_singleton] at hnext
      show (GrowingSet.drainFrom (count + rest.length + 2 + 1) _ _ s).items = _
      rw [h.drainFrom_middle hs, hlast, passedOver, List.append_cons front y (z :: rest), hnext,
        List.append_cons front y (passedOver (z :: rest))]

/-- **What is left of a set that is removed from itself.**  Every second element stays,
    but not the last one. -/
theorem drain_items (h : s.Coherent) : s.drain.items = passedOver s.items := by
  have hnone : ∀ x ∈ ([] : List α), s.items.getLast? = some x := fun x hx => nomatch hx
  have hall := h.drainFrom_items s.items (List.nil_append _).symm hnone (Nat.le_refl _)
  rw [List.nil_append, List.append_nil] at hall
  exact hall

end Coherent

namespace Registry

/-- **A set minus itself.**  After any sequence of operations, removing a set from
    itself leaves the elements at its odd places, counted from 0, except the last
    element, in their order; so it empties the set if and only if that has two
    elements at most. -/
theorem difference_self (operations : List (Operation α)) (name : String) :
    (∀ k, (((ofOperations operations).perform (.difference name (some name))).get name).toList[k]?
      = if 2 * k + 2 < ((ofOperations operations).get name).size
        then ((ofOperations operations).get name).toList[2 * k + 1]? else none) ∧
    ((((ofOperations operations).perform (.difference name (some name))).get name).isEmpty = true
      ↔ ((ofOperations operations).get name).size ≤ 2) := by
  have hitems := (coherent_ofOperations operations name).drain_items
  rw [get_difference, if_pos rfl]
  constructor
  · intro k
    rw [toList, hitems, getElem?_passedOver]
    rfl
  · rw [isEmpty, List.isEmpty_iff, hitems, passedOver_eq_nil_iff]
    rfl

/-- A set of four elements is not emptied: the second one stays. -/
theorem difference_self_leaves :
    ¬ ∀ (operations : List (Operation Nat)) (name : String),
      (((ofOperations operations).perform (.difference name (some name))).get name).toList = [] := by
  intro hempty
  have hfour := hempty [.new "s", .add "s" [1, 2, 3, 4]] "s"
  have hleft : (((ofOperations [.new "s", .add "s" [1, 2, 3, 4]]).perform
      (.difference "s" (some "s"))).get "s").toList = [2] := by decide
  rw [hleft] at hfour
  exact nomatch hfour

end Registry

end GrowingSet

end ShiftReduce
