import ShiftReduce.Analysis.Basic
import ShiftReduce.Proofs.Analysis.First

/-! # FIRST sets are exact — nothing but what derived forms begin with

    `g.Begins u x` says what FIRST is about: the form `u` derives one that
    begins with the terminal `x`, or the empty form if `x` is `ε`.  That FIRST
    misses nothing comes from the maps being closed under the rules.  That it
    has nothing else is an invariant of the rounds: whatever a rule adds to the
    set of its left side, the left side begins with by way of the body.  Both
    together are `First.mem_ofSequence_iff`. -/

namespace ShiftReduce

namespace Grammar

/-- What the forms that a form derives can begin with; `ε` stands for the empty
    form. -/
inductive Begins (g : Grammar) (u : List Symbol) : Symbol → Prop where
  | vanishes (h : g.Derives u []) : Begins g u Symbol.epsilon
  | terminal {x : Symbol} (hx : x ∈ g.terminals) (v : List Symbol) (h : g.Derives u (x :: v)) :
      Begins g u x

namespace Begins

variable {g : Grammar} {u v : List Symbol} {x : Symbol}

/-- A sequence begins with all that the sequences begin with which it derives. -/
theorem of_derives (h : g.Derives u v) (hv : g.Begins v x) : g.Begins u x := by
  cases hv with
  | vanishes hempty => exact .vanishes (h.trans hempty)
  | terminal hx rest hrest => exact .terminal hx rest (h.trans hrest)

/-- What the first part begins with, the whole does. -/
theorem append (h : g.Begins u x) (hx : x ≠ Symbol.epsilon) (v : List Symbol) :
    g.Begins (u ++ v) x := by
  cases h with
  | vanishes _ => exact absurd rfl hx
  | terminal hx rest h => exact .terminal hx (rest ++ v) (h.append (.refl v))

/-- If the first part can vanish, the whole begins as the second part. -/
theorem behind (h : g.Derives u []) (hv : g.Begins v x) : g.Begins (u ++ v) x :=
  of_derives (h.append (.refl v)) hv

/-- To begin with the empty word is to derive it. -/
theorem epsilon_iff (hg : g.Checked) : g.Begins u Symbol.epsilon ↔ g.Derives u [] := by
  constructor
  · intro h
    cases h with
    | vanishes h => exact h
    | terminal hx _ _ => exact absurd rfl (hg.ne_of_mem (Or.inl hx)).1
  · exact .vanishes

/-- To begin with a terminal is to derive a sequence in which it stands first. -/
theorem terminal_iff (hg : g.Checked) (hx : x ∈ g.terminals) :
    g.Begins u x ↔ ∃ v, g.Derives u (x :: v) := by
  constructor
  · intro h
    cases h with
    | vanishes _ => exact absurd rfl (hg.ne_of_mem (Or.inl hx)).1
    | terminal _ v h => exact ⟨v, h⟩
  · rintro ⟨v, h⟩
    exact .terminal hx v h

end Begins

end Grammar

namespace First

open SymbolMap

variable {g : Grammar} {m : SymbolMap}

/-! ## Soundness of the rounds -/

/-- The sets of nonterminals have nothing but what these begin with. -/
def Sound (g : Grammar) (m : SymbolMap) : Prop :=
  ∀ n ∈ g.nonterminals, ∀ x ∈ get m n, g.Begins [n] x

/-- In a sound map, what a symbol begins with is derived. -/
theorem Sound.ofSymbol (h : Sound g m) (hstage : Stage g m) {s x : Symbol}
    (hs : s ∈ g.terminals ∨ s ∈ g.nonterminals) (hx : x ∈ ofSymbol m s) : g.Begins [s] x := by
  rcases hs with ht | hn
  · rw [hstage.ofSymbol_terminal ht] at hx
    obtain rfl := List.mem_singleton.mp hx
    exact .terminal ht [] (.refl [x])
  · rw [hstage.ofSymbol_nonterminal hn] at hx
    exact h s hn x hx

/-- In a sound map, what a sequence begins with is derived. -/
theorem Sound.ofSequence (h : Sound g m) (hstage : Stage g m) (hg : g.WellFormed) :
    ∀ {u : List Symbol}, (∀ s ∈ u, s ∈ g.terminals ∨ s ∈ g.nonterminals) →
      ∀ x ∈ ofSequence m u, g.Begins u x := by
  intro u
  induction u with
  | nil =>
      intro _ x hx
      obtain rfl := List.mem_singleton.mp hx
      exact .vanishes (.refl [])
  | cons s u ih =>
      intro hu x hx
      have hs := hu s List.mem_cons_self
      rcases (mem_ofSequence_cons (hg.ne_of_mem hs).1).mp hx with ⟨hne, hx⟩ | ⟨heps, hx⟩
      · exact (h.ofSymbol hstage hs hx).append hne u
      · have hvanishes : g.Derives [s] [] :=
          (Grammar.Begins.epsilon_iff hg.toChecked).mp (h.ofSymbol hstage hs heps)
        exact .behind hvanishes (ih (fun y hy => hu y (List.mem_cons_of_mem _ hy)) x hx)

/-- What a rule adds, its left side begins with. -/
theorem Sound.applyRule (h : Sound g m) (hstage : Stage g m) (hg : g.WellFormed) {r : Production}
    (hr : r ∈ g.rules) : Sound g (First.applyRule m r) := by
  intro n hn x hx
  rcases mem_get_extend.mp hx with hold | ⟨rfl, hnew⟩
  · exact h n hn x hold
  · exact .of_derives (.of_rule hr) (h.ofSequence hstage hg (hg.body_mem r hr) x hnew)

/-- The empty sets before the first round claim nothing that is not so. -/
theorem sound_initial (g : Grammar) : Sound g (initial g) := by
  intro n hn x hx
  rw [SymbolMap.get, lookup_initial, if_pos hn] at hx
  exact absurd hx List.not_mem_nil

/-- A round adds only what is derived. -/
theorem Sound.round (h : Sound g m) (hstage : Stage g m) (hg : g.WellFormed) :
    Sound g (First.round g m) := by
  refine (List.foldlRecOn (motive := fun m => Stage g m ∧ Sound g m) g.rules First.applyRule
    ⟨hstage, h⟩ ?_).2
  rintro m ⟨hstage, h⟩ r hr
  exact ⟨hstage.applyRule hg hr, h.applyRule hstage hg hr⟩

/-- What the loop ends with is sound. -/
theorem sound_sets (hg : g.WellFormed) : Sound g (sets g) := by
  refine (saturate_induct (P := fun m => Stage g m ∧ Sound g m) ?_ (rounds g) (initial g)
    ⟨stage_initial hg, sound_initial g⟩).2
  rintro m ⟨hstage, h⟩
  exact ⟨(round_eq_or_lt hg hstage).1, h.round hstage hg⟩

/-- FIRST of a form has exactly what the form begins with. -/
theorem mem_ofSequence_iff (hg : g.WellFormed) {u : List Symbol}
    (hu : ∀ s ∈ u, s ∈ g.terminals ∨ s ∈ g.nonterminals) {x : Symbol} :
    x ∈ ofSequence (sets g) u ↔ g.Begins u x := by
  constructor
  · exact (sound_sets hg).ofSequence (stage_sets hg) hg hu x
  · intro h
    cases h with
    | vanishes h => exact mem_of_derives hg h List.mem_cons_self
    | terminal hx v h => exact mem_of_derives hg h (mem_ofSequence_word hg hx v)

/-! ## Sequences of one symbol -/

/-- At every stage the answer for a symbol is in order. -/
theorem Stage.sorted_ofSymbol (h : Stage g m) (s : Symbol) : SymbolSet.Sorted (ofSymbol m s) := by
  have hsorted := h.sorted s
  rw [SymbolMap.get] at hsorted
  rw [First.ofSymbol]
  cases hlookup : m.lookup s with
  | none => exact List.pairwise_singleton _ s
  | some f =>
      rw [hlookup] at hsorted
      exact hsorted

/-- At every stage the answer for a sequence is in order. -/
theorem Stage.sorted_ofSequence (h : Stage g m) (u : List Symbol) :
    SymbolSet.Sorted (First.ofSequence m u) := by
  induction u with
  | nil => exact List.pairwise_singleton _ Symbol.epsilon
  | cons s u ih =>
      rw [First.ofSequence]
      split
      · exact ih
      · dsimp only
        split
        · exact ((h.sorted_ofSymbol s).without Symbol.epsilon).union _
        · exact h.sorted_ofSymbol s

/-- FIRST of a symbol is that of the sequence which has nothing else. -/
theorem Stage.ofSymbol_eq (h : Stage g m) {s : Symbol} (hs : s ≠ Symbol.epsilon) :
    ofSymbol m s = ofSequence m [s] := by
  refine (h.sorted_ofSymbol s).eq_of_mem_iff (h.sorted_ofSequence [s]) ?_
  intro x
  rw [mem_ofSequence_cons hs]
  constructor
  · intro hx
    by_cases heps : x = Symbol.epsilon
    · subst heps
      exact Or.inr ⟨hx, List.mem_cons_self⟩
    · exact Or.inl ⟨heps, hx⟩
  · rintro (⟨-, hx⟩ | ⟨heps, hx⟩)
    · exact hx
    · rw [List.mem_singleton.mp hx]
      exact heps

end First

/-! ## The analysis of a grammar -/

/-- A grammar that was made is well-formed, unless a symbol is a terminal and a
    nonterminal. -/
theorem Grammar.Made.wellFormed {g : Grammar} (hg : g.Made)
    (hd : ∀ s ∈ g.terminals, s ∉ g.nonterminals) : g.WellFormed :=
  { hg.checked.1 with disjoint := hd }

/-- **FIRST is exact.**  For every grammar that was assembled, and augmented any
    number of times, with disjoint alphabets: the rounds come to an end, and
    FIRST of a sequence of declared symbols has a terminal if and only if the
    sequence derives a form that begins with it, `ε` if and only if the sequence
    derives the empty form, and nothing else.  So a symbol is nullable if and
    only if it derives the empty form. -/
theorem Analysis.firstSets_exact {g : Grammar} (hg : g.Made)
    (hd : ∀ s ∈ g.terminals, s ∉ g.nonterminals) :
    Settles (First.round g) (First.initial g) (Analysis.ofGrammar g).firstSets ∧
    (∀ u : List Symbol, (∀ s ∈ u, s ∈ g.terminals ∨ s ∈ g.nonterminals) →
      (∀ x ∈ g.terminals,
        x ∈ (Analysis.ofGrammar g).firstOfSequence u ↔ ∃ v, g.Derives u (x :: v)) ∧
      (Symbol.epsilon ∈ (Analysis.ofGrammar g).firstOfSequence u ↔ g.Derives u []) ∧
      ∀ x ∈ (Analysis.ofGrammar g).firstOfSequence u, x = Symbol.epsilon ∨ x ∈ g.terminals) ∧
    ∀ s, s ∈ g.terminals ∨ s ∈ g.nonterminals →
      ((Analysis.ofGrammar g).nullable s = true ↔ g.Derives [s] []) ∧
      (Analysis.ofGrammar g).first s = (Analysis.ofGrammar g).firstOfSequence [s] := by
  have hwf := hg.wellFormed hd
  have hstage := First.stage_sets hwf
  -- the three statements about a row are one membership, for three kinds of symbols
  have hiff : ∀ {u : List Symbol}, (∀ s ∈ u, s ∈ g.terminals ∨ s ∈ g.nonterminals) → ∀ {x : Symbol},
      x ∈ (Analysis.ofGrammar g).firstOfSequence u ↔ g.Begins u x :=
    fun hu _ => First.mem_ofSequence_iff hwf hu
  refine ⟨settles_saturate _ _ (First.round_sets hwf), ?_, ?_⟩
  · intro u hu
    refine ⟨?_, ?_, ?_⟩
    · intro x hx
      exact (hiff hu).trans (Grammar.Begins.terminal_iff hwf.toChecked hx)
    · exact (hiff hu).trans (Grammar.Begins.epsilon_iff hwf.toChecked)
    · intro x hx
      exact List.mem_cons.mp (hstage.ofSequence_within hwf hu x hx)
  · intro s hs
    have hsingle : (Analysis.ofGrammar g).first s = (Analysis.ofGrammar g).firstOfSequence [s] :=
      hstage.ofSymbol_eq (hwf.ne_of_mem hs).1
    refine ⟨?_, hsingle⟩
    rw [Analysis.nullable, List.contains_iff_mem, hsingle, hiff (by simpa using hs)]
    exact Grammar.Begins.epsilon_iff hwf.toChecked

/-- A grammar with left recursion, a cycle of two nonterminals that both can
    vanish, and a nonterminal that derives no word. -/
def tangledGrammar : Grammar :=
  { name := "tangled", start := "S", terminals := ["a", "b", "c"]
    nonterminals := ["S", "A", "B", "U"]
    rules := [{ id := 0, lhs := "S", body := ["S", "a"] },
      { id := 1, lhs := "S", body := ["A", "B", "b"] }, { id := 2, lhs := "A", body := ["B"] },
      { id := 3, lhs := "B", body := ["A"] }, { id := 4, lhs := "A", body := [] },
      { id := 5, lhs := "U", body := ["U", "c"] }] }

/-- The example is a grammar that can be made. -/
theorem made_tangled : tangledGrammar.Made := by
  have h : Grammar.assemble "tangled" "S" ["a", "b", "c"] ["S", "A", "B", "U"]
      (tangledGrammar.rules.map some) = .ok tangledGrammar := rfl
  exact .assembled h

/-- In the augmented grammar `B S` begins with `b` but not with `a`, `A B` can
    vanish, and `U` begins with nothing. -/
theorem firstSets_exact_tangled :
    (∃ v, tangledGrammar.augmented.Derives ["B", "S"] ("b" :: v)) ∧
      (¬ ∃ v, tangledGrammar.augmented.Derives ["B", "S"] ("a" :: v)) ∧
      tangledGrammar.augmented.Derives ["A", "B"] [] ∧
      ¬ ∃ v, tangledGrammar.augmented.Derives ["U"] ("c" :: v) := by
  obtain ⟨-, hsets, -⟩ := Analysis.firstSets_exact (.augmented made_tangled rfl) (by decide)
  refine ⟨?_, ?_, ?_, ?_⟩
  · exact ((hsets ["B", "S"] (by decide)).1 "b" (by decide)).mp (by decide +kernel)
  · exact mt ((hsets ["B", "S"] (by decide)).1 "a" (by decide)).mpr (by decide +kernel)
  · exact (hsets ["A", "B"] (by decide)).2.1.mp (by decide +kernel)
  · exact mt ((hsets ["U"] (by decide)).1 "c" (by decide)).mpr (by decide +kernel)

end ShiftReduce
