import ShiftReduce.Proofs.Analysis.Overlap
import ShiftReduce.Proofs.Grammar.Renumbering

/-! # Renumbering and the analysis — the order of rules does not show

    The rounds go through the rules in order, and each rule sees what those before
    it have added, so the maps of two orders differ on the way.  What they come to
    does not: the sets have exactly what derivations say, and the keys stay those
    that both began with. -/

namespace ShiftReduce

namespace SymbolMap

variable {m n : SymbolMap} {k : Symbol}

/-- Maps with the same keys and the same sets agree. -/
theorem agree_of_same (hm : m.Unrepeated) (hkeys : n.map Prod.fst = m.map Prod.fst)
    (hsame : Same (fun _ => True) m n) : agree m n = true := by
  have hlength : n.length = m.length := by simpa using congrArg List.length hkeys
  rw [agree, hlength, beq_self_eq_true, Bool.true_and, List.all_eq_true]
  intro e he
  rw [← hsame e.1 trivial, hm.lookup_of_mem he, beq_self_eq_true]

/-- A map that has come from another one by extending the sets of some keys. -/
structure Grown (keys : List Symbol) (m n : SymbolMap) : Prop where
  keys_eq : n.map Prod.fst = m.map Prod.fst
  frame : ∀ k ∉ keys, n.lookup k = m.lookup k

theorem grown_refl (keys : List Symbol) (m : SymbolMap) : Grown keys m m :=
  ⟨rfl, fun _ _ => rfl⟩

/-- Extending the set of one of the keys is growing further. -/
theorem Grown.extend {keys : List Symbol} (h : Grown keys m n)
    (hpresent : ∀ k ∈ keys, (m.lookup k).isSome = true) (hk : k ∈ keys) (s : SymbolSet) :
    Grown keys m (SymbolMap.extend k s n) where
  keys_eq := by
    rw [SymbolMap.extend, keys_put, h.keys_eq]
    rw [h.keys_eq]
    exact isSome_lookup_iff.mp (hpresent k hk)
  frame := by
    intro j hj
    have hne : j ≠ k := by
      rintro rfl
      exact hj hk
    rw [SymbolMap.extend, lookup_put_of_ne hne]
    exact h.frame j hj

/-- Maps that have grown from one map are the same if the sets that may have grown
    are. -/
theorem Grown.same {keys : List Symbol} {base : SymbolMap} (hm : Grown keys base m)
    (hn : Grown keys base n) (hget : ∀ k ∈ keys, get m k = get n k) :
    Same (fun _ => True) m n := by
  intro k _
  by_cases hk : k ∈ keys
  · have hiff : (m.lookup k).isSome = (n.lookup k).isSome := by
      rw [Bool.eq_iff_iff, isSome_lookup_iff, isSome_lookup_iff, hm.keys_eq, hn.keys_eq]
    have hsets := hget k hk
    rw [get, get] at hsets
    cases hleft : m.lookup k with
    | none =>
        rw [hleft] at hiff
        exact (Option.not_isSome_iff_eq_none.mp (by rw [← hiff]; simp)).symm
    | some s =>
        rw [hleft] at hiff hsets
        obtain ⟨t, ht⟩ := Option.isSome_iff_exists.mp hiff.symm
        rw [ht] at hsets ⊢
        exact congrArg some hsets
  · rw [hm.frame k hk, hn.frame k hk]

end SymbolMap

/-! ## The maps of a grammar -/

namespace First

open SymbolMap

variable {g : Grammar}

/-- No symbol has two sets before the first round. -/
theorem unrepeated_initial (g : Grammar) : (initial g).Unrepeated :=
  (unrepeated_nil.foldl_put (fun t => [t]) _).foldl_put (fun _ => []) _

/-- The sets behind the last round have grown from those before the first. -/
theorem grown_sets (hg : g.Checked) : Grown g.nonterminals (initial g) (sets g) := by
  have hpresent : ∀ k ∈ g.nonterminals, ((initial g).lookup k).isSome = true := by
    intro k hk
    rw [lookup_initial, if_pos hk]
    rfl
  refine saturate_induct ?_ _ _ (grown_refl _ _)
  intro m hm
  exact List.foldlRecOn g.rules applyRule hm fun n hn r hr => hn.extend hpresent (hg.lhs_mem r hr) _

/-- FIRST of a nonterminal has exactly what it begins with. -/
theorem mem_get_sets_iff (hg : g.WellFormed) {n x : Symbol} (hn : n ∈ g.nonterminals) :
    x ∈ get (sets g) n ↔ g.Begins [n] x := by
  have hstage := stage_sets hg
  have hdeclared : ∀ s ∈ [n], s ∈ g.terminals ∨ s ∈ g.nonterminals := by
    intro s hs
    rw [List.mem_singleton.mp hs]
    exact Or.inr hn
  rw [← mem_ofSequence_iff hg hdeclared, ← hstage.ofSymbol_eq (hg.ne_of_mem (Or.inr hn)).1,
    hstage.ofSymbol_nonterminal hn]

end First

namespace Follow

open SymbolMap

variable {g : Grammar}

/-- No nonterminal has two sets before the first round. -/
theorem unrepeated_initial (g : Grammar) : (initial g).Unrepeated := by
  have hstarted := (unrepeated_nil.foldl_put (fun _ => []) g.nonterminals).put g.start
  rw [initial]
  split
  · exact (hstarted _).put _ _
  · exact hstarted _

/-- A body adds to sets that are there, and makes no new key. -/
theorem grown_applyBody (hpresent : ∀ k ∈ g.nonterminals, ((initial g).lookup k).isSome = true)
    (lhs : Symbol) (first : SymbolMap) (body : List Symbol) {m : SymbolMap}
    (h : Grown g.nonterminals (initial g) m) :
    Grown g.nonterminals (initial g) (applyBody g first lhs body m) := by
  induction body generalizing m with
  | nil => exact h
  | cons s rest ih =>
      rw [applyBody]
      by_cases hs : g.isNonterminal s = true
      · rw [if_pos hs]
        exact ih (h.extend hpresent (Grammar.isNonterminal_iff.mp hs) _)
      · rw [if_neg hs]
        exact ih h

/-- The sets behind the last round have grown from those before the first. -/
theorem grown_sets (g : Grammar) (first : SymbolMap) :
    Grown g.nonterminals (initial g) (sets g first) := by
  refine saturate_induct ?_ _ _ (grown_refl _ _)
  intro m hm
  exact List.foldlRecOn g.rules _ hm fun n hn r _ =>
    grown_applyBody (stage_initial g).present r.lhs first r.body hn

end Follow

/-! ## Renumbered grammars -/

namespace Grammar.Renumbers

open SymbolMap

variable {number : Int → Int} {g g' : Grammar}

/-- What can begin does not depend on the numbers of the rules. -/
theorem begins_iff (h : Renumbers number g g') {u : List Symbol} {x : Symbol} :
    g'.Begins u x ↔ g.Begins u x := by
  constructor
  · intro hx
    cases hx with
    | vanishes hu => exact .vanishes (h.derives_eq ▸ hu)
    | terminal hx v hu => exact .terminal (h.terminals ▸ hx) v (h.derives_eq ▸ hu)
  · intro hx
    cases hx with
    | vanishes hu => exact .vanishes (h.derives_eq ▸ hu)
    | terminal hx v hu => exact .terminal (h.terminals ▸ hx) v (h.derives_eq ▸ hu)

/-- What can follow does not depend on the numbers of the rules. -/
theorem follows_iff (h : Renumbers number g g') {a x : Symbol} :
    g'.Follows a x ↔ g.Follows a x := by
  constructor
  · intro hx
    cases hx with
    | last u hu =>
        rw [h.derives_eq, h.start] at hu
        exact .last u hu
    | next hb hx u v hu =>
        rw [h.derives_eq] at hu
        exact .next (h.nonterminals ▸ hb) (h.terminals ▸ hx) u v hu
  · intro hx
    cases hx with
    | last u hu =>
        rw [← h.derives_eq, ← h.start] at hu
        exact .last u hu
    | next hb hx u v hu =>
        rw [← h.derives_eq] at hu
        exact .next (h.nonterminals ▸ hb) (h.terminals ▸ hx) u v hu

theorem first_initial_eq (h : Renumbers number g g') : First.initial g' = First.initial g := by
  rw [First.initial, First.initial, h.terminals, h.nonterminals]

theorem follow_initial_eq (h : Renumbers number g g') : Follow.initial g' = Follow.initial g := by
  rw [Follow.initial, Follow.initial, h.start, h.innerStart, h.nonterminals]

/-- FIRST does not depend on the order of rules. -/
theorem first_same (h : Renumbers number g g') (hg : g.WellFormed) (hg' : g'.WellFormed) :
    Same (fun _ => True) (First.sets g) (First.sets g') := by
  have hgrown := First.grown_sets hg'.toChecked
  rw [h.first_initial_eq, h.nonterminals] at hgrown
  refine (First.grown_sets hg.toChecked).same hgrown ?_
  intro n hn
  refine ((First.stage_sets hg).sorted n).eq_of_mem_iff ((First.stage_sets hg').sorted n) ?_
  intro x
  rw [First.mem_get_sets_iff hg hn, First.mem_get_sets_iff hg' (h.nonterminals ▸ hn), h.begins_iff]

/-- FOLLOW does not depend on the order of rules. -/
theorem follow_same (h : Renumbers number g g') (hmade : g.Made) (hmade' : g'.Made)
    (hg : g.WellFormed) (hg' : g'.WellFormed) :
    Same (fun _ => True) (Follow.sets g (First.sets g)) (Follow.sets g' (First.sets g')) := by
  have hgrown := Follow.grown_sets g' (First.sets g')
  rw [h.follow_initial_eq, h.nonterminals] at hgrown
  refine (Follow.grown_sets g (First.sets g)).same hgrown ?_
  intro n hn
  refine ((Follow.stage_sets hg).sorted n).eq_of_mem_iff ((Follow.stage_sets hg').sorted n) ?_
  intro x
  rw [Follow.mem_sets_iff hmade hg hn, Follow.mem_sets_iff hmade' hg' (h.nonterminals ▸ hn),
    h.follows_iff]

/-- The analyses of two orders of rules agree. -/
theorem agrees (h : Renumbers number g g') (hmade : g.Made) (hmade' : g'.Made)
    (hg : g.WellFormed) (hg' : g'.WellFormed) :
    (Analysis.ofGrammar g).agrees (Analysis.ofGrammar g') = true := by
  have hfirst := First.grown_sets hg.toChecked
  have hfirst' := First.grown_sets hg'.toChecked
  have hfollow := Follow.grown_sets g (First.sets g)
  have hfollow' := Follow.grown_sets g' (First.sets g')
  rw [h.first_initial_eq] at hfirst'
  rw [h.follow_initial_eq] at hfollow'
  rw [Analysis.agrees, Bool.and_eq_true]
  constructor
  · refine agree_of_same ?_ (hfirst'.keys_eq.trans hfirst.keys_eq.symm) (h.first_same hg hg')
    show ((First.sets g).map Prod.fst).Nodup
    rw [hfirst.keys_eq]
    exact First.unrepeated_initial g
  · refine agree_of_same ?_ (hfollow'.keys_eq.trans hfollow.keys_eq.symm)
      (h.follow_same hmade hmade' hg hg')
    show ((Follow.sets g (First.sets g)).map Prod.fst).Nodup
    rw [hfollow.keys_eq]
    exact Follow.unrepeated_initial g

/-- As both analyses are exact, they agree on what follows. -/
theorem follow_eq (h : Renumbers number g g') (hmade : g.Made) (hmade' : g'.Made)
    (hg : g.WellFormed) (hg' : g'.WellFormed) (s : Symbol) :
    (Analysis.ofGrammar g').follow s = (Analysis.ofGrammar g).follow s :=
  ((h.follow_same hmade hmade' hg hg').get_eq trivial).symm

end Grammar.Renumbers

end ShiftReduce
