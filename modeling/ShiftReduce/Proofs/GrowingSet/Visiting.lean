import Mathlib.Data.List.Induction
import Mathlib.Tactic.SplitIfs
import ShiftReduce.Proofs.GrowingSet.Registry

/-! # Visits — every element of a changing set is handed out exactly once

    A visit begins an iteration and then adds, removes and asks for the next element,
    in any order, until there is no next element for the first time.  It keeps a
    record of what happened to elements, and an element counts from the moment it was
    added last: what is removed and added again is to be handed out again.

    The invariant is that an element has been handed out, once, if it stands in front
    of the cursor, and otherwise not at all (`Tracks`).  Each of the three acts keeps
    it:

    * an element is added behind the cursor, and its count begins anew;
    * an element is removed together with its place, and the cursor moves back if
      that place was in front of it;
    * the next element is the one behind the cursor, which moves over it. -/

namespace ShiftReduce

namespace GrowingSet

variable {α : Type} [DecidableEq α]

/-- What is done to a set in the course of a visit. -/
inductive Visit.Act (α : Type) where
  | add (values : List α)
  | remove (value : α)
  | next

/-- What has happened: a value became an element, an element was handed out, or
    there was none to be handed out. -/
inductive Visit.Event (α : Type) where
  | added (value : α)
  | handed (item : Option α)
  | ended
  deriving DecidableEq

/-- A set that is visited, with the events so far, the latest one first. -/
structure Visit (α : Type) where
  set : GrowingSet α
  events : List (Visit.Event α) := []

namespace Visit

/-- The beginning of a visit. -/
def start (s : GrowingSet α) : Visit α :=
  { set := s.restart }

/-- Adds a value, which becomes an element unless it is one. -/
def enter (v : Visit α) (x : α) : Visit α :=
  { set := v.set.add x
    events := if x ∈ v.set.toList then v.events else .added x :: v.events }

/-- Carries out an act. -/
def perform (v : Visit α) : Act α → Visit α
  | .add values => values.foldl enter v
  | .remove x => { v with set := v.set.remove x }
  | .next =>
    { set := v.set.advance.2
      events := (if v.set.advance.1 then .handed v.set.advance.2.current? else .ended) :: v.events }

/-- The visit of a set after some acts. -/
def run (s : GrowingSet α) (acts : List (Act α)) : Visit α :=
  acts.foldl perform (start s)

/-- How often a value was handed out since it was last added, or since the beginning
    if it was not added. -/
def timesHanded (x : α) (events : List (Event α)) : Nat :=
  (events.takeWhile (· ≠ .added x)).count (.handed (some x))

/-- There has been a next element whenever one was asked for. -/
def Open (v : Visit α) : Prop :=
  .ended ∉ v.events

instance (v : Visit α) : Decidable v.Open :=
  inferInstanceAs (Decidable (_ ∉ _))

/-- What asking for the next element gives, after some acts. -/
structure Exact (v : Visit α) : Prop where
  /-- If there is a next element, it has not been handed out since it was last added. -/
  fresh : v.set.advance.1 = true → ∃ x ∈ v.set.toList,
    v.set.advance.2.current? = some x ∧ timesHanded x v.events = 0
  /-- If there is none, every element has been handed out once since it was last added. -/
  complete : v.set.advance.1 = false → ∀ x ∈ v.set.advance.2.toList, timesHanded x v.events = 1

/-! ## Counting -/

/-- Adding a value begins its count anew. -/
theorem timesHanded_added_self (x : α) (events : List (Event α)) :
    timesHanded x (.added x :: events) = 0 := by
  rw [timesHanded, List.takeWhile_cons_of_neg (by simp), List.count_nil]

/-- Adding another value does not count. -/
theorem timesHanded_added_of_ne {x y : α} (h : x ≠ y) (events : List (Event α)) :
    timesHanded x (.added y :: events) = timesHanded x events := by
  rw [timesHanded, List.takeWhile_cons_of_pos (by simpa using h.symm),
    List.count_cons_of_ne (by simp)]
  rfl

/-- Handing a value out counts once for it. -/
theorem timesHanded_handed (x y : α) (events : List (Event α)) :
    timesHanded x (.handed (some y) :: events)
      = timesHanded x events + if x = y then 1 else 0 := by
  rw [timesHanded, List.takeWhile_cons_of_pos (by simp), List.count_cons, timesHanded]
  by_cases h : x = y
  · simp [h]
  · simp [h, Ne.symm h]

/-! ## The invariant -/

/-- The elements in front of the cursor have been handed out once, and those behind
    it have not been handed out. -/
structure Tracks (v : Visit α) : Prop where
  coherent : v.set.Coherent
  cursor_le : v.set.cursor ≤ v.set.size
  times : ∀ k x, v.set.items[k]? = some x →
    timesHanded x v.events = if k < v.set.cursor then 1 else 0

variable {v : Visit α}

/-- At the start nothing has been handed out. -/
theorem tracks_start {s : GrowingSet α} (h : s.Coherent) : (start s).Tracks where
  coherent := h.restart
  cursor_le := Nat.zero_le _
  times := fun k _ _ => (if_neg (Nat.not_lt_zero k)).symm

/-- A value that becomes an element stands behind the cursor. -/
theorem Tracks.enter (h : v.Tracks) (x : α) : (v.enter x).Tracks := by
  rw [Visit.enter]
  by_cases hx : x ∈ v.set.toList
  · rw [if_pos hx, h.coherent.add_of_mem hx]
    exact h
  · rw [if_neg hx]
    have hadd := h.coherent.add x
    rw [h.coherent.add_of_notMem hx] at hadd ⊢
    refine ⟨hadd, ?_, ?_⟩
    · have := h.cursor_le
      simp only [size, List.length_append, List.length_singleton] at this ⊢
      omega
    · intro k y hy
      dsimp only at hy ⊢
      have hcursor := h.cursor_le
      rw [size] at hcursor
      -- the new member is the last one, behind the cursor
      rcases Nat.lt_or_ge k v.set.items.length with hlt | hge
      · rw [List.getElem?_append_left hlt] at hy
        have hne : y ≠ x := fun heq => hx (heq ▸ List.mem_of_getElem? hy)
        rw [timesHanded_added_of_ne hne]
        exact h.times k y hy
      · rw [List.getElem?_append_right hge] at hy
        obtain rfl := List.mem_singleton.mp (List.mem_of_getElem? hy)
        rw [timesHanded_added_self, if_neg (by omega)]

/-- The elements behind a gap move up, and the cursor moves back if the gap was in
    front of it. -/
theorem Tracks.remove (h : v.Tracks) (x : α) : (v.perform (.remove x)).Tracks := by
  rw [perform]
  by_cases hx : x ∈ v.set.items
  · obtain ⟨k, hk⟩ := List.mem_iff_getElem?.mp hx
    obtain ⟨hlt, -⟩ := List.getElem?_eq_some_iff.mp hk
    have hremove := h.coherent.remove x
    have hcursor := h.cursor_le
    rw [h.coherent.remove_at hk] at hremove ⊢
    refine ⟨hremove, ?_, ?_⟩
    · show (if k < v.set.cursor then v.set.cursor - 1 else v.set.cursor)
        ≤ (v.set.items.eraseIdx k).length
      rw [List.length_eraseIdx_of_lt hlt]
      rw [size] at hcursor
      split_ifs <;> omega
    · intro j y hy
      show timesHanded y v.events
        = if j < (if k < v.set.cursor then v.set.cursor - 1 else v.set.cursor) then 1 else 0
      change (v.set.items.eraseIdx k)[j]? = some y at hy
      -- members behind the gap move down by one, and the
      -- cursor with them if it is behind the gap too
      rcases Nat.lt_or_ge j k with hjk | hkj
      · rw [List.getElem?_eraseIdx_of_lt hjk] at hy
        rw [h.times j y hy]
        refine if_congr ?_ rfl rfl
        split_ifs <;> omega
      · rw [List.getElem?_eraseIdx_of_ge hkj] at hy
        rw [h.times (j + 1) y hy]
        refine if_congr ?_ rfl rfl
        split_ifs <;> omega
  · rw [h.coherent.remove_of_notMem hx]
    exact h

/-- There is a next element as long as the cursor has not passed all of them. -/
theorem Tracks.advance_eq (h : v.Tracks) :
    v.set.advance = (decide (v.set.cursor < v.set.size),
      { v.set with cursor := v.set.cursor + 1 }) := by
  rw [advance, if_neg (Nat.not_lt.mpr h.cursor_le)]

/-- While the cursor is within the set, the member there is handed out. -/
theorem Tracks.next_eq (h : v.Tracks) (hlt : v.set.cursor < v.set.size) :
    v.perform .next =
      { set := { v.set with cursor := v.set.cursor + 1 }
        events := .handed v.set.items[v.set.cursor]? :: v.events } := by
  rw [perform, h.advance_eq, decide_eq_true hlt]
  rfl

/-- The cursor moves over the element that is handed out. -/
theorem Tracks.next (h : v.Tracks) (hlt : v.set.cursor < v.set.size) :
    (v.perform .next).Tracks := by
  obtain ⟨x, hx⟩ : ∃ x, v.set.items[v.set.cursor]? = some x :=
    ⟨_, List.getElem?_eq_getElem hlt⟩
  rw [h.next_eq hlt, hx]
  refine ⟨⟨h.coherent.nodup, h.coherent.indexed, Nat.le_succ_of_le hlt⟩, hlt, ?_⟩
  intro k y hy
  show timesHanded y (.handed (some x) :: v.events) = if k < v.set.cursor + 1 then 1 else 0
  rw [timesHanded_handed, h.times k y hy]
  by_cases hyx : y = x
  · subst hyx
    obtain rfl := (List.getElem?_inj (List.getElem?_eq_some_iff.mp hy).1 h.coherent.nodup).mp
      (hy.trans hx.symm)
    rw [if_pos rfl, if_neg (Nat.lt_irrefl _), if_pos (Nat.lt_succ_self _)]
  · have hne : k ≠ v.set.cursor := by
      rintro rfl
      exact hyx (Option.some.inj (hy.symm.trans hx))
    rw [if_neg hyx, Nat.add_zero]
    refine if_congr ?_ rfl rfl
    omega

/-! ## Whole visits -/

/-- Nothing is asked for by adding a value. -/
theorem Open.of_enter {x : α} (h : (v.enter x).Open) : v.Open := by
  rw [Open, enter] at h
  split at h
  · exact h
  · exact fun hmem => h (List.mem_cons_of_mem _ hmem)

/-- What is open now has been open before. -/
theorem Open.of_perform {act : Act α} (h : (v.perform act).Open) : v.Open := by
  cases act with
  | add values =>
      rw [perform] at h
      induction values generalizing v with
      | nil => exact h
      | cons x values ih => exact (ih h).of_enter
  | remove x => exact h
  | next => exact fun hmem => h (List.mem_cons_of_mem _ hmem)

/-- An act keeps the invariant unless it asks for an element in vain. -/
theorem Tracks.perform (h : v.Tracks) {act : Act α} (hopen : (v.perform act).Open) :
    (v.perform act).Tracks := by
  cases act with
  | add values =>
      exact List.foldlRecOn values _ h fun _ hu x _ => hu.enter x
  | remove x => exact h.remove x
  | next =>
      refine h.next ?_
      by_contra hnot
      refine hopen ?_
      rw [Visit.perform, h.advance_eq, decide_eq_false hnot]
      exact List.mem_cons_self

/-- So the count is right after any acts, by induction on them. -/
theorem tracks_run {s : GrowingSet α} (h : s.Coherent) (acts : List (Act α))
    (hopen : (run s acts).Open) : (run s acts).Tracks := by
  induction acts using List.reverseRecOn with
  | nil => exact tracks_start h
  | append_singleton acts act ih =>
      have hlast : run s (acts ++ [act]) = (run s acts).perform act := by
        rw [run, List.foldl_concat]
        rfl
      rw [hlast] at hopen ⊢
      exact (ih hopen.of_perform).perform hopen

/-- What is tracked is what a visit is to give. -/
theorem Tracks.exact (h : v.Tracks) : v.Exact where
  fresh := by
    intro hnext
    rw [h.advance_eq, decide_eq_true_iff] at hnext
    obtain ⟨x, hx⟩ : ∃ x, v.set.items[v.set.cursor]? = some x :=
      ⟨_, List.getElem?_eq_getElem hnext⟩
    refine ⟨x, List.mem_of_getElem? hx, ?_, ?_⟩
    · rw [h.advance_eq]
      exact hx
    · rw [h.times _ x hx, if_neg (Nat.lt_irrefl _)]
  complete := by
    intro hnext x hx
    rw [h.advance_eq, decide_eq_false_iff_not] at hnext
    rw [h.advance_eq] at hx
    obtain ⟨k, hk⟩ := List.mem_iff_getElem?.mp hx
    have hlt : k < v.set.size := (List.getElem?_eq_some_iff.mp hk).1
    rw [h.times k x hk, if_pos (Nat.lt_of_lt_of_le hlt (Nat.le_of_not_lt hnext))]

end Visit

/-- **A visit is exact.**  Take any set that operations lead to, begin an iteration,
    and add, remove and ask for the next element in any order, as long as there is
    one.  The element that is handed out next has not been handed out since it was
    last added; and when there is none for the first time, every element has been
    handed out exactly once since it was last added. -/
theorem Registry.visit_exact (operations : List (Registry.Operation α)) (name : String)
    (acts : List (Visit.Act α))
    (h : (Visit.run ((Registry.ofOperations operations).get name) acts).Open) :
    (Visit.run ((Registry.ofOperations operations).get name) acts).Exact :=
  (Visit.tracks_run (Registry.coherent_ofOperations operations name) acts h).exact

/-- Elements are removed in front of the cursor, at it and behind it, and the one that
    was handed out first is added again and handed out again. -/
theorem Registry.visit_exact_readded :
    let v := Visit.run ((Registry.ofOperations [.add "s" [1, 2, 3, 4]]).get "s")
      [.next, .next, .remove 1, .add [1, 2, 5], .remove 2, .remove 4, .next, .next, .next]
    v.Open ∧ v.set.advance.1 = false ∧ v.set.toList = [3, 1, 5] ∧
      Visit.timesHanded 1 v.events = 1 ∧ v.events.count (.handed (some 1)) = 2 := by
  have hopen : (Visit.run ((Registry.ofOperations [.add "s" [1, 2, 3, 4]]).get "s")
      [.next, .next, .remove 1, .add [1, 2, 5], .remove 2, .remove 4, .next, .next, .next]).Open := by
    decide
  have hexact := Registry.visit_exact [.add "s" [1, 2, 3, 4]] "s"
    [.next, .next, .remove 1, .add [1, 2, 5], .remove 2, .remove 4, .next, .next, .next] hopen
  exact ⟨hopen, by decide, by decide, hexact.complete (by decide) 1 (by decide), by decide⟩

end GrowingSet

end ShiftReduce
