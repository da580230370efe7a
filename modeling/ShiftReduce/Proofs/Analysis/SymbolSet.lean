import Mathlib.Algebra.Order.BigOperators.Group.List
import Mathlib.Algebra.Order.Ring.Nat
import Mathlib.Data.List.Nodup
import Mathlib.Data.List.Perm.Subperm
import ShiftReduce.Analysis.Saturation
import ShiftReduce.Analysis.SymbolSet

/-! # Growing maps of sets — what a round of an analysis can do

    The sets of an analysis are sorted lists, so a set that gains no member
    stays the same list.  Extending a map at a key therefore does one of two
    things: nothing, if all new members are there already, or it makes the set
    of the key longer.  A round of such extensions inherits the alternative,
    and sets over a fixed stock of symbols can become longer only so often. -/

namespace ShiftReduce

namespace SymbolSet

/-- The members stand in increasing order. -/
def Sorted (s : SymbolSet) : Prop :=
  s.Pairwise fun x y => x < y

/-- A set in strict order has no symbol twice. -/
theorem Sorted.nodup {s : SymbolSet} (h : Sorted s) : s.Nodup := by
  refine List.Pairwise.imp ?_ h
  rintro x y hxy rfl
  exact String.lt_irrefl x hxy

/-- A symbol is put where it belongs. -/
theorem Sorted.add {s : SymbolSet} (h : Sorted s) (x : Symbol) : Sorted (add x s) := by
  -- the cases of `add`: the symbol is there, goes in front, or goes further in
  induction s with
  | nil => exact List.pairwise_singleton _ x
  | cons y ys ih =>
      obtain ⟨hy, hys⟩ := List.pairwise_cons.mp h
      rw [SymbolSet.add]
      by_cases hxy : x = y
      · rw [if_pos hxy]
        exact h
      · rw [if_neg hxy]
        by_cases hlt : x < y
        · rw [if_pos hlt]
          refine List.pairwise_cons.mpr ⟨?_, h⟩
          intro z hz
          rcases List.mem_cons.mp hz with rfl | hz
          · exact hlt
          · exact String.lt_trans hlt (hy z hz)
        · rw [if_neg hlt]
          refine List.pairwise_cons.mpr ⟨?_, ih hys⟩
          intro z hz
          rcases mem_add.mp hz with rfl | hz
          · refine String.not_le.mp fun hle => hxy ?_
            exact String.le_antisymm hle (String.not_lt.mp hlt)
          · exact hy z hz

/-- Adding a symbol that is there changes nothing. -/
theorem Sorted.add_of_mem {s : SymbolSet} (h : Sorted s) {x : Symbol} (hx : x ∈ s) :
    SymbolSet.add x s = s := by
  induction s with
  | nil => exact nomatch hx
  | cons y ys ih =>
      obtain ⟨hy, hys⟩ := List.pairwise_cons.mp h
      rw [SymbolSet.add]
      by_cases hxy : x = y
      · rw [if_pos hxy]
      · have hmem : x ∈ ys := (List.mem_cons.mp hx).resolve_left hxy
        have hlt : ¬ x < y := fun hlt => String.lt_irrefl x (String.lt_trans hlt (hy x hmem))
        rw [if_neg hxy, if_neg hlt, ih hys hmem]

/-- A union is in order. -/
theorem Sorted.union {s : SymbolSet} (h : Sorted s) (t : SymbolSet) : Sorted (union s t) := by
  rw [SymbolSet.union]
  induction t generalizing s with
  | nil => exact h
  | cons x t ih => exact ih (h.add x)

/-- A union with a part of the set changes nothing. -/
theorem Sorted.union_of_subset {s t : SymbolSet} (h : Sorted s) (ht : ∀ x ∈ t, x ∈ s) :
    SymbolSet.union s t = s := by
  rw [SymbolSet.union]
  induction t with
  | nil => rfl
  | cons x t ih =>
      rw [List.foldl_cons, h.add_of_mem (ht x List.mem_cons_self)]
      exact ih fun y hy => ht y (List.mem_cons_of_mem _ hy)

/-- A new member makes a set longer. -/
theorem Sorted.length_lt_union {s t : SymbolSet} (h : Sorted s) {x : Symbol} (hx : x ∈ t)
    (hnew : x ∉ s) : s.length < (SymbolSet.union s t).length := by
  have hnodup : (x :: s).Nodup := List.nodup_cons.mpr ⟨hnew, h.nodup⟩
  have hsub : x :: s ⊆ SymbolSet.union s t := by
    intro y hy
    rcases List.mem_cons.mp hy with rfl | hy
    · exact mem_union.mpr (Or.inr hx)
    · exact mem_union.mpr (Or.inl hy)
  exact (hnodup.subperm hsub).length_le

/-- Sets with the same members are the same lists. -/
theorem Sorted.eq_of_mem_iff {s t : SymbolSet} (hs : Sorted s) (ht : Sorted t)
    (h : ∀ x, x ∈ s ↔ x ∈ t) : s = t := by
  have hperm : s.Perm t := (List.perm_ext_iff_of_nodup hs.nodup ht.nodup).mpr h
  refine hperm.eq_of_pairwise ?_ hs ht
  intro x y _ _ hxy hyx
  exact absurd (String.lt_trans hxy hyx) (String.lt_irrefl x)

/-- Taking a symbol out keeps the order. -/
theorem Sorted.without {s : SymbolSet} (h : Sorted s) (x : Symbol) : Sorted (without x s) :=
  h.filter _

end SymbolSet

namespace SymbolMap

@[simp] theorem get_put_self (k : Symbol) (s : SymbolSet) (m : SymbolMap) :
    get (put k s m) k = s := by
  simp [get]

theorem get_put_of_ne {k j : Symbol} (h : j ≠ k) (s : SymbolSet) (m : SymbolMap) :
    get (put k s m) j = get m j := by
  rw [get, get, lookup_put_of_ne h]

/-- The members that a map has after it was extended. -/
theorem mem_get_extend {k j x : Symbol} {s : SymbolSet} {m : SymbolMap} :
    x ∈ get (extend k s m) j ↔ x ∈ get m j ∨ j = k ∧ x ∈ s := by
  rw [extend]
  by_cases h : j = k
  · subst h
    rw [get_put_self, SymbolSet.mem_union]
    simp
  · rw [get_put_of_ne h]
    simp [h]

/-- Putting back the set that a key has changes nothing. -/
theorem put_get {m : SymbolMap} {k : Symbol} (h : (m.lookup k).isSome = true) :
    put k (get m k) m = m := by
  induction m with
  | nil => exact nomatch h
  | cons e rest ih =>
      obtain ⟨j, s⟩ := e
      rw [put]
      by_cases hjk : j = k
      · subst hjk
        simp [get]
      · have hne : (k == j) = false := by simpa using fun hk : k = j => hjk hk.symm
        simp only [get, List.lookup_cons, hne] at h ih ⊢
        rw [if_neg hjk, ih h]

/-- Putting a set under a key makes no other key disappear. -/
theorem isSome_lookup_put {m : SymbolMap} {k j : Symbol} {s : SymbolSet}
    (h : j = k ∨ (m.lookup j).isSome = true) : ((put k s m).lookup j).isSome = true := by
  by_cases hjk : j = k
  · subst hjk
    simp
  · rw [lookup_put_of_ne hjk]
    exact h.resolve_left hjk

/-! ## Keys -/

section Keys

variable {m : SymbolMap} {k : Symbol} {s : SymbolSet}

theorem isSome_lookup_iff : (m.lookup k).isSome = true ↔ k ∈ m.map Prod.fst := by
  rw [List.lookup_isSome_iff, List.mem_map]
  simp only [beq_iff_eq, @eq_comm _ k]

/-- Putting a set under a known key keeps the list of keys. -/
theorem keys_put (h : k ∈ m.map Prod.fst) : (put k s m).map Prod.fst = m.map Prod.fst := by
  induction m with
  | nil => exact absurd h List.not_mem_nil
  | cons e m ih =>
      rw [put]
      by_cases hk : e.1 = k
      · rw [if_pos hk, List.map_cons, List.map_cons, hk]
      · rw [if_neg hk, List.map_cons, List.map_cons, ih]
        exact (List.mem_cons.mp h).resolve_left fun heq => hk heq.symm

/-- A new key goes behind all others. -/
theorem keys_put_of_not_mem (h : k ∉ m.map Prod.fst) :
    (put k s m).map Prod.fst = m.map Prod.fst ++ [k] := by
  induction m with
  | nil => rfl
  | cons e m ih =>
      have hk : ¬ e.1 = k := fun heq => h (List.mem_cons.mpr (Or.inl heq.symm))
      rw [put, if_neg hk, List.map_cons, List.map_cons, List.cons_append,
        ih fun hmem => h (List.mem_cons_of_mem _ hmem)]

/-- No key of a map occurs twice. -/
def Unrepeated (m : SymbolMap) : Prop :=
  (m.map Prod.fst).Nodup

theorem unrepeated_nil : Unrepeated [] :=
  List.nodup_nil

/-- Putting a set somewhere makes no key stand twice. -/
theorem Unrepeated.put (h : m.Unrepeated) (k : Symbol) (s : SymbolSet) :
    (SymbolMap.put k s m).Unrepeated := by
  rw [Unrepeated]
  by_cases hk : k ∈ m.map Prod.fst
  · rw [keys_put hk]
    exact h
  · rw [keys_put_of_not_mem hk]
    refine List.nodup_append.mpr ⟨h, List.nodup_singleton k, ?_⟩
    rintro a ha b hb rfl
    rw [List.mem_singleton.mp hb] at ha
    exact hk ha

/-- Nor does putting many sets. -/
theorem Unrepeated.foldl_put (h : m.Unrepeated) (f : Symbol → SymbolSet) (ks : List Symbol) :
    (ks.foldl (fun m j => SymbolMap.put j (f j) m) m).Unrepeated :=
  List.foldlRecOn ks _ h fun _ hm j _ => hm.put j (f j)

/-- Without repetition, an entry is what is found under its key. -/
theorem Unrepeated.lookup_of_mem (h : m.Unrepeated) {e : Symbol × SymbolSet} (he : e ∈ m) :
    m.lookup e.1 = some e.2 := by
  obtain ⟨before, behind, rfl⟩ := List.append_of_mem he
  refine List.lookup_eq_some_iff.mpr ⟨before, behind, rfl, ?_⟩
  intro d hd
  rw [Unrepeated, List.map_append, List.nodup_append] at h
  have hne := h.2.2 d.1 (List.mem_map_of_mem hd) e.1 (List.mem_map_of_mem List.mem_cons_self)
  exact bne_iff_ne.mpr hne.symm

end Keys

/-! ## Tidy maps -/

/-- The keys have sorted sets of values. -/
structure Tidy (keys values : List Symbol) (m : SymbolMap) : Prop where
  sorted : ∀ k, (get m k).Sorted
  present : ∀ k ∈ keys, (m.lookup k).isSome = true
  within : ∀ k ∈ keys, ∀ x ∈ get m k, x ∈ values

/-- How many members the sets of the keys have. -/
def weight (keys : List Symbol) (m : SymbolMap) : Nat :=
  (keys.map fun k => (get m k).length).sum

namespace Tidy

variable {keys values : List Symbol} {m : SymbolMap}

/-- The sets of all keys together have no more symbols than there are keys times
    values. -/
theorem weight_le (h : Tidy keys values m) : weight keys m ≤ keys.length * values.length := by
  have hsum := List.sum_le_card_nsmul (keys.map fun k => (get m k).length) values.length (by
    intro n hn
    obtain ⟨k, hk, rfl⟩ := List.mem_map.mp hn
    exact ((h.sorted k).nodup.subperm (h.within k hk)).length_le)
  rw [List.length_map] at hsum
  exact hsum

/-- Extending by allowed values keeps a map tidy. -/
theorem extend (h : Tidy keys values m) {k : Symbol} {s : SymbolSet}
    (hs : ∀ x ∈ s, x ∈ values) : Tidy keys values (SymbolMap.extend k s m) := by
  refine ⟨?_, ?_, ?_⟩
  · intro j
    rw [SymbolMap.extend]
    by_cases hjk : j = k
    · subst hjk
      rw [get_put_self]
      exact (h.sorted j).union s
    · rw [get_put_of_ne hjk]
      exact h.sorted j
  · intro j hj
    exact isSome_lookup_put (Or.inr (h.present j hj))
  · intro j hj x hx
    rcases mem_get_extend.mp hx with hx | ⟨-, hx⟩
    · exact h.within j hj x hx
    · exact hs x hx

/-- Extending a map changes nothing, or adds to its weight. -/
theorem extend_eq_or_lt (h : Tidy keys values m) {k : Symbol} (hk : k ∈ keys) (s : SymbolSet) :
    (SymbolMap.extend k s m = m ∧ ∀ x ∈ s, x ∈ get m k) ∨
      weight keys m < weight keys (SymbolMap.extend k s m) := by
  by_cases hs : ∀ x ∈ s, x ∈ get m k
  · refine Or.inl ⟨?_, hs⟩
    rw [SymbolMap.extend, (h.sorted k).union_of_subset hs, put_get (h.present k hk)]
  · refine Or.inr ?_
    obtain ⟨x, hx, hnew⟩ : ∃ x ∈ s, x ∉ get m k := by simpa using hs
    have hlt : (get m k).length < (get (SymbolMap.extend k s m) k).length := by
      rw [SymbolMap.extend, get_put_self]
      exact (h.sorted k).length_lt_union hx hnew
    -- no other key loses anything
    refine List.sum_lt_sum _ _ ?_ ⟨k, hk, hlt⟩
    intro j hj
    by_cases hjk : j = k
    · subst hjk
      exact Nat.le_of_lt hlt
    · rw [SymbolMap.extend, get_put_of_ne hjk]

end Tidy

end SymbolMap

/-- If every step of a pass keeps an invariant and either changes nothing, being
    done, or adds to a measure, then so does the pass. -/
theorem foldl_eq_or_lt {α β : Type} {f : α → β → α} {P : α → Prop} (Done : α → β → Prop)
    (size : α → Nat) : ∀ (bs : List β),
    (∀ b ∈ bs, ∀ x, P x → P (f x b) ∧ (f x b = x ∧ Done x b ∨ size x < size (f x b))) →
      ∀ x, P x → P (bs.foldl f x) ∧
        (bs.foldl f x = x ∧ (∀ b ∈ bs, Done x b) ∨ size x < size (bs.foldl f x)) := by
  intro bs
  induction bs with
  | nil => intro _ x hx; exact ⟨hx, Or.inl ⟨rfl, fun b hb => nomatch hb⟩⟩
  | cons b bs ih =>
      intro hstep x hx
      obtain ⟨hb, hchange⟩ := hstep b List.mem_cons_self x hx
      obtain ⟨hP, hrest⟩ := ih (fun c hc => hstep c (List.mem_cons_of_mem _ hc)) _ hb
      refine ⟨hP, ?_⟩
      rw [List.foldl_cons]
      -- the first element that changes something makes the size larger for good
      rcases hchange with ⟨heq, hdone⟩ | hlt
      · rw [heq] at hrest ⊢
        rcases hrest with ⟨hsame, hall⟩ | hlt
        · refine Or.inl ⟨hsame, ?_⟩
          intro c hc
          rcases List.mem_cons.mp hc with rfl | hc
          · exact hdone
          · exact hall c hc
        · exact Or.inr hlt
      · refine Or.inr ?_
        rcases hrest with ⟨hsame, -⟩ | hlt'
        · rw [hsame]
          exact hlt
        · exact Nat.lt_trans hlt hlt'

end ShiftReduce
