import ShiftReduce.Analysis.Basic
import ShiftReduce.Proofs.Analysis.First

/-! # FOLLOW sets — complete for derived forms

    As with FIRST, the rounds end with maps that no rule extends.  From this it
    follows by induction on a derivation that FOLLOW misses nothing: whatever
    can begin the rest of a derived form behind a nonterminal is in the FOLLOW
    set of the nonterminal, and where the rest can vanish, all of FOLLOW of the
    symbol that the derivation began with is. -/

namespace ShiftReduce

namespace Follow

/-- Behind an occurrence comes what the rest begins with, and what comes behind the left
    side if the rest can vanish. -/
theorem mem_contribution {first m : SymbolMap} {lhs x : Symbol} {rest : List Symbol} :
    x ∈ contribution first m lhs rest ↔
      (x ≠ Symbol.epsilon ∧ x ∈ First.ofSequence first rest) ∨
        (Symbol.epsilon ∈ First.ofSequence first rest ∧ x ∈ SymbolMap.get m lhs) := by
  unfold contribution
  dsimp only
  by_cases heps : Symbol.epsilon ∈ First.ofSequence first rest
  · rw [if_pos (by simpa using heps), SymbolSet.mem_union, SymbolSet.mem_without]
    simp only [heps, true_and]
    rw [and_comm]
  · rw [if_neg (by simpa using heps), SymbolSet.mem_without]
    simp only [heps, false_and, or_false]
    rw [and_comm]

/-- What the maps of all rounds have in common. -/
structure Stage (g : Grammar) (m : SymbolMap) : Prop
    extends m.Tidy g.nonterminals (Symbol.endMarker :: g.terminals) where
  start : Symbol.endMarker ∈ SymbolMap.get m g.start

/-- No occurrence of a nonterminal in a body adds anything. -/
def Done (g : Grammar) (first : SymbolMap) (lhs : Symbol) (body : List Symbol) (m : SymbolMap) :
    Prop :=
  ∀ u s rest, body = u ++ s :: rest → s ∈ g.nonterminals →
    ∀ x ∈ contribution first m lhs rest, x ∈ SymbolMap.get m s

variable {g : Grammar} {m : SymbolMap}

/-- Terminals and the end marker may be added at any stage. -/
theorem Stage.extend (h : Stage g m) {k : Symbol} {s : SymbolSet}
    (hs : ∀ x ∈ s, x ∈ Symbol.endMarker :: g.terminals) : Stage g (SymbolMap.extend k s m) :=
  { h.toTidy.extend hs with start := SymbolMap.mem_get_extend.mpr (Or.inl h.start) }

/-- The map before the first round is a stage. -/
theorem stage_initial (g : Grammar) : Stage g (initial g) := by
  -- the map with all sets empty, to which the end marker of the start symbol is added
  let empty : SymbolMap := g.nonterminals.foldl (fun m n => SymbolMap.put n [] m) []
  have hlookup : ∀ k, empty.lookup k = if k ∈ g.nonterminals then some [] else none :=
    fun k => SymbolMap.lookup_foldl_put (fun _ => []) g.nonterminals [] k
  have hget : ∀ k, SymbolMap.get empty k = [] := by
    intro k
    rw [SymbolMap.get, hlookup]
    split
    · rfl
    · rfl
  have hempty : empty.Tidy g.nonterminals (Symbol.endMarker :: g.terminals) := by
    refine ⟨?_, ?_, ?_⟩
    · intro k
      rw [hget]
      exact List.Pairwise.nil
    · intro k hk
      rw [hlookup, if_pos hk]
      rfl
    · intro k _ x hx
      rw [hget] at hx
      exact absurd hx List.not_mem_nil
  have hmark : ∀ x ∈ [Symbol.endMarker], x ∈ Symbol.endMarker :: g.terminals := by
    intro x hx
    rw [List.mem_singleton.mp hx]
    exact List.mem_cons_self
  have hstarted : Stage g (SymbolMap.extend g.start [Symbol.endMarker] empty) :=
    { hempty.extend hmark with
      start := SymbolMap.mem_get_extend.mpr (Or.inr ⟨rfl, List.mem_cons_self⟩) }
  unfold initial
  dsimp only
  split
  · exact hstarted.extend hmark
  · exact hstarted

/-- Nothing but terminals and the end marker is contributed. -/
theorem contribution_within (hg : g.WellFormed) (h : Stage g m) {lhs : Symbol}
    (hlhs : lhs ∈ g.nonterminals) {rest : List Symbol}
    (hrest : ∀ s ∈ rest, s ∈ g.terminals ∨ s ∈ g.nonterminals) :
    ∀ x ∈ contribution (First.sets g) m lhs rest, x ∈ Symbol.endMarker :: g.terminals := by
  intro x hx
  rcases mem_contribution.mp hx with ⟨hne, hx⟩ | ⟨-, hx⟩
  · have hfirst := (First.stage_sets hg).ofSequence_within hg hrest x hx
    exact List.mem_cons_of_mem _ ((List.mem_cons.mp hfirst).resolve_left hne)
  · exact h.within lhs hlhs x hx

/-- The pass over a body keeps the stage, and changes nothing or adds to the
    weight. -/
theorem applyBody_eq_or_lt (hg : g.WellFormed) {lhs : Symbol} (hlhs : lhs ∈ g.nonterminals) :
    ∀ (body : List Symbol), (∀ s ∈ body, s ∈ g.terminals ∨ s ∈ g.nonterminals) →
      ∀ m, Stage g m → Stage g (applyBody g (First.sets g) lhs body m) ∧
        (applyBody g (First.sets g) lhs body m = m ∧ Done g (First.sets g) lhs body m ∨
          m.weight g.nonterminals < (applyBody g (First.sets g) lhs body m).weight
            g.nonterminals) := by
  intro body
  induction body with
  | nil =>
      intro _ m h
      refine ⟨h, Or.inl ⟨rfl, ?_⟩⟩
      intro u s rest hbody
      simp at hbody
  | cons s body ih =>
      intro hdecl m h
      have hrest : ∀ x ∈ body, x ∈ g.terminals ∨ x ∈ g.nonterminals :=
        fun x hx => hdecl x (List.mem_cons_of_mem _ hx)
      rw [applyBody]
      by_cases hs : s ∈ g.nonterminals
      · rw [if_pos (by simpa using hs)]
        have hwithin := contribution_within hg h hlhs hrest
        obtain ⟨hstage, hchange⟩ := ih hrest _ (h.extend (k := s) hwithin)
        refine ⟨hstage, ?_⟩
        -- the first symbol of the body is done, or has already added to the weight
        rcases h.toTidy.extend_eq_or_lt hs (contribution (First.sets g) m lhs body) with
          ⟨hsame, hsub⟩ | hlt
        · rw [hsame] at hchange ⊢
          refine hchange.imp ?_ id
          rintro ⟨heq, hdone⟩
          refine ⟨heq, ?_⟩
          intro u x rest hbody hx
          rcases List.cons_eq_append_iff.mp hbody with ⟨rfl, hcons⟩ | ⟨u', rfl, hrest'⟩
          · obtain ⟨rfl, rfl⟩ := List.cons.inj hcons
            exact hsub
          · exact hdone u' x rest hrest' hx
        · refine Or.inr ?_
          rcases hchange with ⟨heq, -⟩ | hlt'
          · rw [heq]
            exact hlt
          · exact Nat.lt_trans hlt hlt'
      · rw [if_neg (by simpa using hs)]
        obtain ⟨hstage, hchange⟩ := ih hrest m h
        refine ⟨hstage, hchange.imp ?_ id⟩
        rintro ⟨heq, hdone⟩
        refine ⟨heq, ?_⟩
        intro u x rest hbody hx
        rcases List.cons_eq_append_iff.mp hbody with ⟨rfl, hcons⟩ | ⟨u', rfl, hrest'⟩
        · exact absurd ((List.cons.inj hcons).1 ▸ hx) hs
        · exact hdone u' x rest hrest' hx

/-- A round leads from stage to stage; either nothing is left to do, or some set has
    grown. -/
theorem round_eq_or_lt (hg : g.WellFormed) (h : Stage g m) :
    Stage g (round g (First.sets g) m) ∧
      (round g (First.sets g) m = m ∧ (∀ r ∈ g.rules, Done g (First.sets g) r.lhs r.body m) ∨
        m.weight g.nonterminals < (round g (First.sets g) m).weight g.nonterminals) := by
  refine foldl_eq_or_lt (P := Stage g) (fun m r => Done g (First.sets g) r.lhs r.body m)
    (SymbolMap.weight g.nonterminals) g.rules ?_ m h
  intro r hr m h
  exact applyBody_eq_or_lt hg (hg.lhs_mem r hr) r.body (hg.body_mem r hr) m h

theorem stage_sets (hg : g.WellFormed) : Stage g (sets g (First.sets g)) :=
  saturate_induct (P := Stage g) (fun _ h => (round_eq_or_lt hg h).1) _ _ (stage_initial g)

/-- Another round changes nothing: the bound on the rounds is great enough. -/
theorem round_sets (hg : g.WellFormed) :
    round g (First.sets g) (sets g (First.sets g)) = sets g (First.sets g) := by
  have hgrow : ∀ m, Stage g m → round g (First.sets g) m ≠ m →
      m.weight g.nonterminals < (round g (First.sets g) m).weight g.nonterminals := by
    intro m h hne
    exact (round_eq_or_lt hg h).2.resolve_left fun hsame => hne hsame.1
  have hbound : ∀ m, Stage g m →
      m.weight g.nonterminals ≤ g.nonterminals.length * (g.terminals.length + 1) :=
    fun m h => h.toTidy.weight_le
  refine saturate_stable (P := Stage g) (fun _ h => (round_eq_or_lt hg h).1) hgrow hbound _ _
    (stage_initial g) ?_
  rw [First.rounds]
  omega

/-- When the loop ends, every occurrence in every rule has contributed. -/
theorem sets_done (hg : g.WellFormed) {r : Production} (hr : r ∈ g.rules) :
    Done g (First.sets g) r.lhs r.body (sets g (First.sets g)) := by
  rcases (round_eq_or_lt hg (stage_sets hg)).2 with ⟨-, hdone⟩ | hlt
  · exact hdone r hr
  · rw [round_sets hg] at hlt
    exact absurd hlt (Nat.lt_irrefl _)

/-- An occurrence in three pieces side by side stands in one of them. -/
theorem occurrence_cases {α : Type} {c body d u v : List α} {a : α}
    (h : c ++ body ++ d = u ++ a :: v) :
    (∃ v', c = u ++ a :: v' ∧ v = v' ++ body ++ d) ∨
      (∃ u' v', body = u' ++ a :: v' ∧ v = v' ++ d) ∨
      (∃ u', d = u' ++ a :: v) := by
  rcases List.append_eq_append_iff.mp h with ⟨u', -, hd⟩ | ⟨e, hfront, hback⟩
  · exact Or.inr (Or.inr ⟨u', hd⟩)
  · rcases List.cons_eq_append_iff.mp hback with ⟨rfl, rfl⟩ | ⟨v', rfl, rfl⟩
    · exact Or.inr (Or.inr ⟨[], rfl⟩)
    · rcases List.append_eq_append_iff.mp hfront with ⟨u', -, hbody⟩ | ⟨e, hc, hrest⟩
      · exact Or.inr (Or.inl ⟨u', v', hbody, rfl⟩)
      · rcases List.cons_eq_append_iff.mp hrest with ⟨rfl, rfl⟩ | ⟨v'', rfl, rfl⟩
        · exact Or.inr (Or.inl ⟨[], v', rfl, rfl⟩)
        · exact Or.inl ⟨v'', hc, rfl⟩

/-- Behind a nonterminal within a derived form stands nothing but its FOLLOW
    set, and at the end what follows the beginning of the derivation. -/
theorem mem_sets_of_derives (hg : g.WellFormed) {b : Symbol} {w : List Symbol}
    (h : g.Derives [b] w) : ∀ u a v, w = u ++ a :: v → a ∈ g.nonterminals →
      (∀ x ∈ First.ofSequence (First.sets g) v, x ≠ Symbol.epsilon →
          x ∈ SymbolMap.get (sets g (First.sets g)) a) ∧
        (Symbol.epsilon ∈ First.ofSequence (First.sets g) v →
          ∀ x ∈ SymbolMap.get (sets g (First.sets g)) b,
            x ∈ SymbolMap.get (sets g (First.sets g)) a) := by
  -- along the derivation; what follows an occurrence is read off where the step put it
  induction h with
  | refl =>
      intro u a v hw _
      obtain ⟨rfl, rfl, rfl⟩ : u = [] ∧ b = a ∧ v = [] := by
        rcases List.cons_eq_append_iff.mp hw with ⟨rfl, hcons⟩ | ⟨u', rfl, hnil⟩
        · exact ⟨rfl, (List.cons.inj hcons).1.symm, (List.cons.inj hcons).2⟩
        · simp at hnil
      refine ⟨?_, fun _ x hx => hx⟩
      intro x hx hne
      exact absurd (List.mem_singleton.mp hx) hne
  | tail _ hstep ih =>
      intro u a v hw ha
      obtain ⟨c, d, r, hr⟩ := hstep
      rcases occurrence_cases hw with ⟨v', rfl, rfl⟩ | ⟨u', v', hbody, rfl⟩ | ⟨u', rfl⟩
      · -- left of the body: the rest contained the left side in its place
        obtain ⟨hfirst, hempty⟩ := ih u a (v' ++ r.lhs :: d) (by simp) ha
        have hback : ∀ x, x ∈ First.ofSequence (First.sets g) (v' ++ r.body ++ d) →
            x ∈ First.ofSequence (First.sets g) (v' ++ r.lhs :: d) :=
          fun x hx => First.mem_of_rewrites hg (.step v' d r hr) hx
        exact ⟨fun x hx => hfirst x (hback x hx), fun heps => hempty (hback _ heps)⟩
      · -- inside: the rest of the body, then what follows the left side
        obtain ⟨hfirst, hempty⟩ := ih c r.lhs d rfl (hg.lhs_mem r hr)
        have hdone := sets_done hg hr u' a v' hbody ha
        constructor
        · intro x hx hne
          rcases (First.mem_ofSequence_append _ _).mp hx with ⟨-, hx⟩ | ⟨heps, hx⟩
          · exact hdone x (mem_contribution.mpr (Or.inl ⟨hne, hx⟩))
          · exact hdone x (mem_contribution.mpr (Or.inr ⟨heps, hfirst x hx hne⟩))
        · intro heps x hx
          rcases (First.mem_ofSequence_append _ _).mp heps with ⟨hne, -⟩ | ⟨hv', hd⟩
          · exact absurd rfl hne
          · exact hdone x (mem_contribution.mpr (Or.inr ⟨hv', hempty hd x hx⟩))
      · -- right of the body: nothing behind the occurrence has changed
        exact ih (c ++ r.lhs :: u') a v (by simp) ha

end Follow

/-- In a form that the start symbol derives, what stands behind a nonterminal is
    in its FOLLOW set: the next terminal, or the end marker. -/
theorem Analysis.mem_follow_of_derives {g : Grammar} (hg : g.WellFormed) {u w : List Symbol}
    {a : Symbol} (ha : a ∈ g.nonterminals) (hw : g.IsWord w)
    (h : g.Derives [g.start] (u ++ a :: w)) :
    w.headD Symbol.endMarker ∈ (Analysis.ofGrammar g).follow a := by
  obtain ⟨hfirst, hempty⟩ := Follow.mem_sets_of_derives hg h u a w rfl ha
  cases w with
  | nil => exact hempty List.mem_cons_self _ (Follow.stage_sets hg).start
  | cons t w =>
      have ht := hw t List.mem_cons_self
      exact hfirst t (First.mem_ofSequence_word hg ht w) (hg.ne_of_mem (Or.inl ht)).1

end ShiftReduce
