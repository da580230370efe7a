import ShiftReduce.Analysis.First
import ShiftReduce.Proofs.Analysis.SymbolSet
import ShiftReduce.Proofs.Grammar.Derivation

/-! # FIRST sets — closed under the rules

    The rounds end with maps that no rule extends, since every other round adds
    a terminal or `ε` to the set of a nonterminal.  So FIRST of a body lies in
    FIRST of the left side, and rewriting a form never adds to FIRST. -/

namespace ShiftReduce

namespace SymbolMap

/-- A row of puts leaves every key of the row with its set. -/
theorem lookup_foldl_put (f : Symbol → SymbolSet) (ks : List Symbol) (m : SymbolMap)
    (k : Symbol) :
    (ks.foldl (fun m j => put j (f j) m) m).lookup k
      = if k ∈ ks then some (f k) else m.lookup k := by
  induction ks generalizing m with
  | nil => simp
  | cons j ks ih =>
      rw [List.foldl_cons, ih]
      by_cases hks : k ∈ ks
      · simp [hks]
      · by_cases hkj : k = j
        · subst hkj
          simp [hks]
        · simp [hks, hkj, lookup_put_of_ne hkj]

end SymbolMap

namespace First

open SymbolMap

/-! ## FIRST of sequences -/

/-- A sequence begins like its first symbol, and like the rest if the first symbol can
    vanish. -/
theorem mem_ofSequence_cons {m : SymbolMap} {s x : Symbol} {rest : List Symbol}
    (hs : s ≠ Symbol.epsilon) :
    x ∈ ofSequence m (s :: rest) ↔ (x ≠ Symbol.epsilon ∧ x ∈ ofSymbol m s) ∨
      (Symbol.epsilon ∈ ofSymbol m s ∧ x ∈ ofSequence m rest) := by
  rw [ofSequence, if_neg hs]
  by_cases heps : Symbol.epsilon ∈ ofSymbol m s
  · rw [if_pos (by simpa using heps), SymbolSet.mem_union, SymbolSet.mem_without]
    simp only [heps, true_and]
    rw [and_comm]
  · rw [if_neg (by simpa using heps)]
    constructor
    · intro hx
      refine Or.inl ⟨?_, hx⟩
      rintro rfl
      exact heps hx
    · rintro (⟨-, hx⟩ | ⟨h, -⟩)
      · exact hx
      · exact absurd h heps

/-- What a sequence begins with comes from its first part or, if that can
    vanish, from the second. -/
theorem mem_ofSequence_append {m : SymbolMap} {x : Symbol} (u v : List Symbol) :
    x ∈ ofSequence m (u ++ v) ↔ (x ≠ Symbol.epsilon ∧ x ∈ ofSequence m u) ∨
      (Symbol.epsilon ∈ ofSequence m u ∧ x ∈ ofSequence m v) := by
  induction u generalizing x with
  | nil => simp [ofSequence]
  | cons s u ih =>
      rw [List.cons_append]
      by_cases hs : s = Symbol.epsilon
      · rw [ofSequence, ofSequence, if_pos hs, if_pos hs]
        exact ih
      · rw [mem_ofSequence_cons hs, mem_ofSequence_cons hs, mem_ofSequence_cons hs, ih]
        tauto

/-! ## Rounds -/

/-- What the maps of all rounds have in common. -/
structure Stage (g : Grammar) (m : SymbolMap) : Prop
    extends m.Tidy g.nonterminals (Symbol.epsilon :: g.terminals) where
  own : ∀ t ∈ g.terminals, m.lookup t = some [t]

variable {g : Grammar} {m : SymbolMap}

/-- A terminal begins with itself, at every stage. -/
theorem Stage.ofSymbol_terminal (h : Stage g m) {t : Symbol} (ht : t ∈ g.terminals) :
    ofSymbol m t = [t] := by
  rw [ofSymbol, h.own t ht]
  rfl

/-- A nonterminal begins with what the map has for it. -/
theorem Stage.ofSymbol_nonterminal (h : Stage g m) {n : Symbol} (hn : n ∈ g.nonterminals) :
    ofSymbol m n = get m n := by
  obtain ⟨s, hs⟩ := Option.isSome_iff_exists.mp (h.present n hn)
  rw [ofSymbol, SymbolMap.get, hs]
  rfl

/-- FIRST of a form holds terminals and `ε` only. -/
theorem Stage.ofSequence_within (h : Stage g m) (hg : g.WellFormed) : ∀ {u : List Symbol},
    (∀ s ∈ u, s ∈ g.terminals ∨ s ∈ g.nonterminals) →
      ∀ x ∈ ofSequence m u, x ∈ Symbol.epsilon :: g.terminals := by
  intro u
  induction u with
  | nil =>
      intro _ x hx
      rw [List.mem_singleton.mp hx]
      exact List.mem_cons_self
  | cons s u ih =>
      intro hu x hx
      have hs := hu s List.mem_cons_self
      rcases (mem_ofSequence_cons (hg.ne_of_mem hs).1).mp hx with ⟨-, hx⟩ | ⟨-, hx⟩
      · rcases hs with ht | hn
        · rw [h.ofSymbol_terminal ht] at hx
          rw [List.mem_singleton.mp hx]
          exact List.mem_cons_of_mem _ ht
        · rw [h.ofSymbol_nonterminal hn] at hx
          exact h.within s hn x hx
      · exact ih (fun y hy => hu y (List.mem_cons_of_mem _ hy)) x hx

/-- Before the first round nonterminals have empty sets, and every other symbol begins
    with itself. -/
theorem lookup_initial (g : Grammar) (k : Symbol) :
    (initial g).lookup k = if k ∈ g.nonterminals then some []
      else if k ∈ g.terminals ++ [Symbol.epsilon, Symbol.endMarker] then some [k] else none := by
  rw [initial, lookup_foldl_put (fun _ => []), lookup_foldl_put (fun t => [t])]
  rfl

/-- The map before the first round is a stage. -/
theorem stage_initial (hg : g.WellFormed) : Stage g (initial g) := by
  refine { sorted := ?_, present := ?_, within := ?_, own := ?_ }
  · intro k
    rw [SymbolMap.get, lookup_initial]
    split
    · exact List.Pairwise.nil
    · split
      · exact List.pairwise_singleton _ k
      · exact List.Pairwise.nil
  · intro k hk
    rw [lookup_initial, if_pos hk]
    rfl
  · intro k hk x hx
    rw [SymbolMap.get, lookup_initial, if_pos hk] at hx
    exact absurd hx List.not_mem_nil
  · intro t ht
    rw [lookup_initial, if_neg (hg.disjoint t ht), if_pos (List.mem_append_left _ ht)]

/-- One rule leads from stage to stage. -/
theorem Stage.applyRule (h : Stage g m) (hg : g.WellFormed) {r : Production} (hr : r ∈ g.rules) :
    Stage g (First.applyRule m r) := by
  have hwithin := h.ofSequence_within hg (hg.body_mem r hr)
  refine { h.toTidy.extend hwithin with own := ?_ }
  intro t ht
  have hne : t ≠ r.lhs := by
    rintro rfl
    exact hg.disjoint _ ht (hg.lhs_mem r hr)
  rw [First.applyRule, SymbolMap.extend, lookup_put_of_ne hne]
  exact h.own t ht

/-- A round keeps the stage, and changes nothing or adds to the weight. -/
theorem round_eq_or_lt (hg : g.WellFormed) (h : Stage g m) :
    Stage g (round g m) ∧
      (round g m = m ∧ (∀ r ∈ g.rules, ∀ x ∈ ofSequence m r.body, x ∈ get m r.lhs) ∨
        weight g.nonterminals m < weight g.nonterminals (round g m)) := by
  refine foldl_eq_or_lt (P := Stage g) (fun m r => ∀ x ∈ ofSequence m r.body, x ∈ get m r.lhs)
    (weight g.nonterminals) g.rules ?_ m h
  intro r hr m h
  exact ⟨h.applyRule hg hr, h.toTidy.extend_eq_or_lt (hg.lhs_mem r hr) _⟩

theorem stage_sets (hg : g.WellFormed) : Stage g (sets g) :=
  saturate_induct (P := Stage g) (fun _ h => (round_eq_or_lt hg h).1) _ _ (stage_initial hg)

/-- Another round changes nothing: the bound on the rounds is great enough. -/
theorem round_sets (hg : g.WellFormed) : round g (sets g) = sets g := by
  have hgrow : ∀ m, Stage g m → round g m ≠ m →
      weight g.nonterminals m < weight g.nonterminals (round g m) := by
    intro m h hne
    exact (round_eq_or_lt hg h).2.resolve_left fun hsame => hne hsame.1
  have hbound : ∀ m, Stage g m →
      weight g.nonterminals m ≤ g.nonterminals.length * (g.terminals.length + 1) :=
    fun m h => h.toTidy.weight_le
  refine saturate_stable (P := Stage g) (fun _ h => (round_eq_or_lt hg h).1) hgrow hbound _ _
    (stage_initial hg) ?_
  rw [rounds]
  omega

/-- FIRST of a body lies in FIRST of the left side. -/
theorem sets_closed (hg : g.WellFormed) {r : Production} (hr : r ∈ g.rules) {x : Symbol}
    (hx : x ∈ ofSequence (sets g) r.body) : x ∈ ofSymbol (sets g) r.lhs := by
  have hstage := stage_sets hg
  rw [hstage.ofSymbol_nonterminal (hg.lhs_mem r hr)]
  rcases (round_eq_or_lt hg hstage).2 with ⟨-, hdone⟩ | hlt
  · exact hdone r hr x hx
  · rw [round_sets hg] at hlt
    exact absurd hlt (Nat.lt_irrefl _)

/-- Rewriting a form does not add to FIRST. -/
theorem mem_of_rewrites (hg : g.WellFormed) {u v : List Symbol} (h : g.Rewrites u v) {x : Symbol}
    (hx : x ∈ ofSequence (sets g) v) : x ∈ ofSequence (sets g) u := by
  obtain ⟨a, b, r, hr⟩ := h
  have hlhs := (hg.ne_of_mem (Or.inr (hg.lhs_mem r hr))).1
  rw [List.append_assoc] at hx
  rw [mem_ofSequence_append] at hx ⊢
  refine hx.imp id ?_
  rintro ⟨ha, hx⟩
  refine ⟨ha, (mem_ofSequence_cons hlhs).mpr ?_⟩
  rcases (mem_ofSequence_append _ _).mp hx with ⟨hne, hx⟩ | ⟨heps, hx⟩
  · exact Or.inl ⟨hne, sets_closed hg hr hx⟩
  · exact Or.inr ⟨sets_closed hg hr heps, hx⟩

/-- What a sequence begins with, every sequence begins with that derives it. -/
theorem mem_of_derives (hg : g.WellFormed) {u v : List Symbol} (h : g.Derives u v) {x : Symbol}
    (hx : x ∈ ofSequence (sets g) v) : x ∈ ofSequence (sets g) u := by
  induction h with
  | refl => exact hx
  | tail _ hstep ih => exact ih (mem_of_rewrites hg hstep hx)

/-- A word begins with its first terminal. -/
theorem mem_ofSequence_word (hg : g.WellFormed) {t : Symbol} (ht : t ∈ g.terminals)
    (w : List Symbol) : t ∈ ofSequence (sets g) (t :: w) := by
  have hne := (hg.ne_of_mem (Or.inl ht)).1
  refine (mem_ofSequence_cons hne).mpr (Or.inl ⟨hne, ?_⟩)
  rw [(stage_sets hg).ofSymbol_terminal ht]
  exact List.mem_cons_self

end First

end ShiftReduce
