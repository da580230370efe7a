import Mathlib.Data.List.Forall2
import Mathlib.Data.List.Nodup
import Mathlib.Data.List.Perm.Subperm
import ShiftReduce.Grammar.Basic

/-! # Arrangement — rules in the slots of their numbers

    Rules are put into slots one by one.  If they have different numbers and their
    slots are free, each comes into its slot, and the other slots stay as they are
    (`exists_placed`); and otherwise they cannot be placed (`rules_of_placed`).
    There are as many slots as rules, so all slots are filled, by the pigeonhole
    principle.  Altogether, the arrangement of rules is the permutation of them in
    which they are numbered by their places, if there is one
    (`arrange?_eq_some_iff`). -/

namespace ShiftReduce

namespace Grammar

variable {slots slots' : List (Option Production)} {offered : List (Option Production)}
  {rules ordered : List Production}

/-- Rules that are numbered by their places. -/
def Numbered (ordered : List Production) : Prop :=
  ∀ (n : Nat) (r : Production), ordered[n]? = some r → r.id = n

/-- Rules with different numbers whose slots are free. -/
structure Placeable (slots : List (Option Production)) (rules : List Production) : Prop where
  free : ∀ r ∈ rules, ∃ n : Nat, r.id = n ∧ slots[n]? = some none
  different : (rules.map Production.id).Nodup

/-! ## One slot after the other -/

/-- A rule is placed if it is there and the slot of its number is free. -/
theorem place?_eq_some_iff {rule : Option Production} :
    place? slots rule = some slots' ↔ ∃ r, rule = some r ∧ ∃ n : Nat, r.id = n ∧
      slots[n]? = some none ∧ slots' = slots.set n (some r) := by
  cases rule with
  | none => simp [place?]
  | some r =>
      obtain ⟨number, lhs, body⟩ := r
      cases number with
      | ofNat n =>
          simp only [place?, Option.some.injEq, exists_eq_left', Int.ofNat_eq_natCast,
            Int.natCast_inj]
          split
          · rename_i hfree
            simp [hfree, eq_comm]
          · rename_i htaken
            simp [htaken]
      | negSucc n => simp [place?]

/-- Placing a rule leaves the others to be placed in what is free then. -/
theorem placeable_cons {r : Production} {n : Nat} (hid : r.id = n) (hfree : slots[n]? = some none) :
    Placeable slots (r :: rules) ↔ Placeable (slots.set n (some r)) rules := by
  obtain ⟨hlt, -⟩ := List.getElem?_eq_some_iff.mp hfree
  constructor
  · rintro ⟨hall, hdifferent⟩
    rw [List.map_cons, List.nodup_cons] at hdifferent
    refine ⟨?_, hdifferent.2⟩
    intro q hq
    obtain ⟨m, hm, hslot⟩ := hall q (List.mem_cons_of_mem _ hq)
    have hne : n ≠ m := by
      rintro rfl
      exact hdifferent.1 (List.mem_map.mpr ⟨q, hq, hm.trans hid.symm⟩)
    exact ⟨m, hm, by rw [List.getElem?_set_ne hne]; exact hslot⟩
  · rintro ⟨hall, hdifferent⟩
    -- the slot of the rule is taken now, so the others have other numbers
    have hother : ∀ q ∈ rules, ∃ m : Nat, q.id = m ∧ n ≠ m ∧ slots[m]? = some none := by
      intro q hq
      obtain ⟨m, hm, hslot⟩ := hall q hq
      have hne : n ≠ m := by
        rintro rfl
        rw [List.getElem?_set_self hlt] at hslot
        cases hslot
      exact ⟨m, hm, hne, by rw [← List.getElem?_set_ne hne]; exact hslot⟩
    refine ⟨?_, ?_⟩
    · intro q hq
      rcases List.mem_cons.mp hq with rfl | hq
      · exact ⟨n, hid, hfree⟩
      · obtain ⟨m, hm, -, hslot⟩ := hother q hq
        exact ⟨m, hm, hslot⟩
    · rw [List.map_cons, List.nodup_cons]
      refine ⟨?_, hdifferent⟩
      intro hmem
      obtain ⟨q, hq, hsame⟩ := List.mem_map.mp hmem
      obtain ⟨m, hm, hne, -⟩ := hother q hq
      omega

/-- Every rule comes into its slot, and the slots without a rule stay as they are. -/
theorem exists_placed (h : Placeable slots rules) :
    ∃ slots', (rules.map some).foldlM place? slots = some slots' ∧ slots'.length = slots.length ∧
      (∀ r ∈ rules, ∀ n : Nat, r.id = n → slots'[n]? = some (some r)) ∧
      ∀ n : Nat, (∀ r ∈ rules, r.id ≠ n) → slots'[n]? = slots[n]? := by
  induction rules generalizing slots with
  | nil =>
      refine ⟨slots, rfl, rfl, ?_, fun n _ => rfl⟩
      intro r hr
      cases hr
  | cons r rules ih =>
      obtain ⟨n, hid, hfree⟩ := h.free r List.mem_cons_self
      obtain ⟨hlt, -⟩ := List.getElem?_eq_some_iff.mp hfree
      have hdifferent := h.different
      rw [List.map_cons, List.nodup_cons] at hdifferent
      obtain ⟨slots', hplaced, hlength, hfilled, hkept⟩ := ih ((placeable_cons hid hfree).mp h)
      have hplace : place? slots (some r) = some (slots.set n (some r)) :=
        place?_eq_some_iff.mpr ⟨r, rfl, n, hid, hfree, rfl⟩
      refine ⟨slots', ?_, by rw [hlength, List.length_set], ?_, ?_⟩
      · rw [List.map_cons, List.foldlM_cons, hplace]
        exact hplaced
      · intro q hq m hm
        rcases List.mem_cons.mp hq with rfl | hq
        · obtain rfl : n = m := by omega
          -- no later rule has this number, so its slot is left alone
          have hrest : ∀ p ∈ rules, p.id ≠ n := by
            intro p hp hpid
            exact hdifferent.1 (List.mem_map.mpr ⟨p, hp, hpid.trans hid.symm⟩)
          rw [hkept n hrest, List.getElem?_set_self hlt]
        · exact hfilled q hq m hm
      · intro m hm
        have hne : n ≠ m := by
          rintro rfl
          exact hm r List.mem_cons_self hid
        rw [hkept m fun q hq => hm q (List.mem_cons_of_mem _ hq), List.getElem?_set_ne hne]

/-- What could be placed were rules with different numbers whose slots were free. -/
theorem rules_of_placed (h : offered.foldlM place? slots = some slots') :
    ∃ rules, offered = rules.map some ∧ Placeable slots rules := by
  induction offered generalizing slots with
  | nil =>
      refine ⟨[], rfl, ?_, List.nodup_nil⟩
      intro r hr
      cases hr
  | cons rule offered ih =>
      rw [List.foldlM_cons] at h
      obtain ⟨first, hplace, hrest⟩ := Option.bind_eq_some_iff.mp h
      obtain ⟨r, rfl, n, hid, hfree, rfl⟩ := place?_eq_some_iff.mp hplace
      obtain ⟨rules, rfl, hplaceable⟩ := ih hrest
      exact ⟨r :: rules, rfl, (placeable_cons hid hfree).mpr hplaceable⟩

/-! ## All slots -/

/-- All slots are filled just if none is empty. -/
theorem mapM_id_eq_some_iff {α : Type} {xs : List (Option α)} {ys : List α} :
    xs.mapM id = some ys ↔ xs = ys.map some := by
  induction xs generalizing ys with
  | nil =>
      cases ys with
      | nil => simp
      | cons y ys => simp
  | cons x xs ih =>
      cases ys with
      | nil => simp [Option.bind_eq_some_iff]
      | cons y ys => simp [Option.bind_eq_some_iff, ih]

/-- In the beginning all slots are free. -/
theorem getElem?_free {count n : Nat} :
    (List.replicate count (none : Option Production))[n]? = some none ↔ n < count := by
  simp [List.getElem?_replicate]

/-- Arranged rules are the rules in another order, numbered by their places. -/
theorem perm_of_arranged (h : arrange? offered = some ordered) :
    offered.Perm (ordered.map some) ∧ Numbered ordered := by
  obtain ⟨slots, hplaced, hordered⟩ := Option.bind_eq_some_iff.mp h
  rw [mapM_id_eq_some_iff] at hordered
  obtain ⟨rules, rfl, hplaceable⟩ := rules_of_placed hplaced
  obtain ⟨slots', hplaced', hlength, hfilled, hkept⟩ := exists_placed hplaceable
  obtain rfl : slots = slots' := Option.some.inj (hplaced.symm.trans hplaced')
  rw [hordered, List.length_replicate, List.length_map, List.length_map] at hlength
  have hsub : rules ⊆ ordered := by
    intro r hr
    obtain ⟨n, hn, -⟩ := hplaceable.free r hr
    have hslot := List.mem_of_getElem? (hfilled r hr n hn)
    rw [hordered, List.mem_map] at hslot
    obtain ⟨q, hq, hqr⟩ := hslot
    rw [← Option.some.inj hqr]
    exact hq
  -- as many rules as slots, all different, and each of them among what is in the slots
  have hperm : rules.Perm ordered :=
    (List.subperm_of_subset hplaceable.different.of_map hsub).perm_of_length_le (by omega)
  refine ⟨hperm.map some, ?_⟩
  intro n r hr
  have hslot : slots[n]? = some (some r) := by
    rw [hordered, List.getElem?_map, hr]
    rfl
  by_cases hnumber : ∃ q ∈ rules, q.id = n
  · obtain ⟨q, hq, hid⟩ := hnumber
    have hsame := (hfilled q hq n hid).symm.trans hslot
    rw [← Option.some.inj (Option.some.inj hsame)]
    exact hid
  · -- a slot that belongs to no rule has stayed as it was
    have hempty := hkept n fun q hq hid => hnumber ⟨q, hq, hid⟩
    have hmem := List.mem_of_getElem? (hempty.symm.trans hslot)
    cases List.eq_of_mem_replicate hmem

/-- Rules in order have the numbers from zero on. -/
theorem Numbered.map_id (h : Numbered ordered) :
    ordered.map Production.id = (List.range ordered.length).map Int.ofNat := by
  refine List.ext_getElem (by simp) fun n hn _ => ?_
  rw [List.length_map] at hn
  rw [List.getElem_map, List.getElem_map, List.getElem_range]
  exact h n _ (List.getElem?_eq_getElem hn)

/-- Rules in any order are put into that of their numbers. -/
theorem arrange?_of_perm (hperm : rules.Perm ordered) (hnumbered : Numbered ordered) :
    arrange? (rules.map some) = some ordered := by
  have hplaceable : Placeable (List.replicate (rules.map some).length none) rules := by
    refine ⟨?_, ?_⟩
    · intro r hr
      obtain ⟨n, hn⟩ := List.mem_iff_getElem?.mp (hperm.mem_iff.mp hr)
      obtain ⟨hlt, -⟩ := List.getElem?_eq_some_iff.mp hn
      refine ⟨n, hnumbered n r hn, getElem?_free.mpr ?_⟩
      rw [List.length_map, hperm.length_eq]
      exact hlt
    · rw [(hperm.map Production.id).nodup_iff, hnumbered.map_id]
      exact List.nodup_range.map fun _ _ h => Int.ofNat.inj h
  obtain ⟨slots, hplaced, hlength, hfilled, -⟩ := exists_placed hplaceable
  rw [List.length_replicate, List.length_map, hperm.length_eq] at hlength
  have hslots : slots = ordered.map some := by
    refine List.ext_getElem (by rw [hlength, List.length_map]) fun n hn _ => ?_
    rw [hlength] at hn
    have hget := List.getElem?_eq_getElem hn
    have hslot := hfilled _ (hperm.mem_iff.mpr (List.getElem_mem hn)) n (hnumbered n _ hget)
    obtain ⟨_, hvalue⟩ := List.getElem?_eq_some_iff.mp hslot
    rw [hvalue, List.getElem_map]
  rw [arrange?, hplaced]
  exact mapM_id_eq_some_iff.mpr hslots

/-- If none is missing, the rules can be told. -/
theorem eq_map_some (h : none ∉ offered) : offered = (offered.filterMap id).map some := by
  induction offered with
  | nil => rfl
  | cons rule offered ih =>
      rw [List.mem_cons, not_or] at h
      cases rule with
      | none => exact absurd rfl h.1
      | some r => exact congrArg (some r :: ·) (ih h.2)

/-- The arrangement of rules is the permutation of them in which they are numbered
    by their places. -/
theorem arrange?_eq_some_iff :
    arrange? offered = some ordered ↔ offered.Perm (ordered.map some) ∧ Numbered ordered := by
  refine ⟨perm_of_arranged, ?_⟩
  rintro ⟨hperm, hnumbered⟩
  have hpresent : none ∉ offered := by
    intro hmem
    obtain ⟨r, -, hr⟩ := List.mem_map.mp (hperm.mem_iff.mp hmem)
    cases hr
  have hrules := hperm.filterMap id
  rw [List.filterMap_map] at hrules
  rw [eq_map_some hpresent]
  exact arrange?_of_perm (hrules.trans (by simp)) hnumbered

/-- The order in which the rules are offered does not matter. -/
theorem arrange?_congr {other : List (Option Production)} (h : offered.Perm other) :
    arrange? offered = arrange? other := by
  refine Option.ext fun ordered => ?_
  show arrange? offered = some ordered ↔ arrange? other = some ordered
  rw [arrange?_eq_some_iff, arrange?_eq_some_iff, h.congr_left]

/-- Rules that are all there have all their numbers. -/
theorem numbers_map_some (rules : List Production) :
    (rules.map some).filterMap (Option.map Production.id) = rules.map Production.id := by
  rw [List.filterMap_map, ← List.filterMap_eq_map]
  rfl

/-- Rules can be arranged if and only if none is missing and their numbers are those
    from 0 on, in some order. -/
theorem exists_arranged_iff :
    (∃ ordered, arrange? offered = some ordered) ↔ none ∉ offered ∧
      (offered.filterMap (Option.map Production.id)).Perm
        ((List.range offered.length).map Int.ofNat) := by
  constructor
  · rintro ⟨ordered, h⟩
    obtain ⟨hperm, hnumbered⟩ := arrange?_eq_some_iff.mp h
    refine ⟨?_, ?_⟩
    · intro hmem
      obtain ⟨r, -, hr⟩ := List.mem_map.mp (hperm.mem_iff.mp hmem)
      cases hr
    · rw [hperm.length_eq, List.length_map, ← hnumbered.map_id]
      exact (hperm.filterMap _).trans (List.Perm.of_eq (numbers_map_some ordered))
  · rintro ⟨hpresent, hids⟩
    have hoffered := eq_map_some hpresent
    generalize offered.filterMap id = rules at hoffered
    subst hoffered
    rw [numbers_map_some, List.length_map] at hids
    have hown : List.Forall₂ (fun i (r : Production) => r.id = i) (rules.map Production.id) rules :=
      List.forall₂_map_left_iff.mpr (List.forall₂_same.mpr fun r _ => rfl)
    -- a permutation of the numbers is one of the rules
    obtain ⟨ordered, hnumbers, hperm⟩ := List.perm_comp_forall₂ hids.symm hown
    refine ⟨ordered, arrange?_of_perm hperm.symm ?_⟩
    intro n r hr
    obtain ⟨hlt, rfl⟩ := List.getElem?_eq_some_iff.mp hr
    have hget := hnumbers.get (i := n) (by rw [hnumbers.length_eq]; exact hlt) hlt
    simpa using hget

end Grammar

end ShiftReduce
