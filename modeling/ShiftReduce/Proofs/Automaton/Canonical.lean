import ShiftReduce.Analysis.Basic
import ShiftReduce.Proofs.Automaton.ValidItems

/-! # The canonical automaton — one state for every set of valid items

    The states of the automaton of a grammar are exactly the sets of items that
    are valid for some word of symbols.  `Proofs.Automaton.ValidItems` has one
    half of this: the state that a word leads to has the items that are valid
    for the word.  The other half is that there are no more states: a set is
    added to the survey together with a move that leads to it, so every state
    lies on a path that begins in state 0.

    The survey ends by itself.  Its fuel covers all sets of items, and with more
    fuel it comes to the same automaton. -/

namespace ShiftReduce

namespace Automaton

/-! ## The end of the survey -/

/-- A survey that has a row for every set stays as it is. -/
theorem Survey.complete_of_full {g : Grammar} {symbols : List Symbol} {v : Survey}
    (h : v.rows.length = v.sets.length) : ∀ fuel, v.complete g symbols fuel = v := by
  intro fuel
  cases fuel with
  | zero => rfl
  | succ fuel =>
      have hnone : v.sets[v.rows.length]? = none := List.getElem?_eq_none (Nat.le_of_eq h.symm)
      rw [Survey.complete, hnone]

/-- Fuel can be used up in two parts. -/
theorem Survey.complete_add (g : Grammar) (symbols : List Symbol) (more : Nat) :
    ∀ (fuel : Nat) (v : Survey),
      v.complete g symbols (fuel + more) = (v.complete g symbols fuel).complete g symbols more := by
  intro fuel
  induction fuel with
  | zero =>
      intro v
      rw [Nat.zero_add]
      rfl
  | succ fuel ih =>
      intro v
      rw [Nat.add_right_comm, Survey.complete]
      cases hnext : v.sets[v.rows.length]? with
      | none =>
          -- there is nothing left to visit, with any fuel
          have hstop : ∀ n, v.complete g symbols n = v := by
            intro n
            cases n with
            | zero => rfl
            | succ n => rw [Survey.complete, hnext]
          rw [hstop, hstop]
      | some s =>
          have hstep : v.complete g symbols (fuel + 1)
              = (v.visit g symbols s).complete g symbols fuel := by
            rw [Survey.complete, hnext]
          rw [hstep]
          exact ih _

/-- What every visit preserves holds at the end of a survey. -/
theorem Survey.complete_induct {g : Grammar} {symbols : List Symbol} {P : Survey → Prop}
    (hvisit : ∀ v s, v.sets[v.rows.length]? = some s → P v → P (v.visit g symbols s)) :
    ∀ (fuel : Nat) {v : Survey}, P v → P (v.complete g symbols fuel) := by
  intro fuel
  induction fuel with
  | zero => intro v h; exact h
  | succ fuel ih =>
      intro v h
      rw [Survey.complete]
      split
      · exact h
      · rename_i s hs
        exact ih (hvisit v s hs h)

/-! ## Every set is found by a move -/

/-- Sets are added behind the others. -/
theorem prefix_tryMove (g : Grammar) (s : ItemSet) (found : List (Symbol × Nat) × List ItemSet)
    (x : Symbol) : found.2 <+: (tryMove g s found x).2 := by
  rw [tryMove]
  split
  · exact List.prefix_rfl
  · show found.2 <+: (locate found.2 _).2
    rw [locate]
    split
    · exact List.prefix_rfl
    · exact List.prefix_append _ _

/-- Trying moves only adds sets behind those that are known. -/
theorem prefix_foldl_tryMove (g : Grammar) (s : ItemSet) (xs : List Symbol)
    (found : List (Symbol × Nat) × List ItemSet) :
    found.2 <+: (xs.foldl (tryMove g s) found).2 :=
  List.foldlRecOn xs (tryMove g s) (motive := fun later => found.2 <+: later.2) List.prefix_rfl
    fun later hlater x _ => hlater.trans (prefix_tryMove g s later x)

/-- Every set that was added to the first ones is the target of a move. -/
def Listed (start : List ItemSet) (found : List (Symbol × Nat) × List ItemSet) : Prop :=
  start.length ≤ found.2.length ∧
    ∀ k, start.length ≤ k → k < found.2.length → ∃ x, (x, k) ∈ found.1

/-- If trying a move adds a set, the move leads there. -/
theorem Listed.tryMove {start : List ItemSet} {found : List (Symbol × Nat) × List ItemSet}
    (h : Listed start found) (g : Grammar) (s : ItemSet) (x : Symbol) :
    Listed start (tryMove g s found x) := by
  obtain ⟨hlen, hall⟩ := h
  rw [Automaton.tryMove]
  split
  · exact ⟨hlen, hall⟩
  · show Listed start (found.1 ++ [(x, (locate found.2 (ItemSet.move g s x)).1)],
      (locate found.2 (ItemSet.move g s x)).2)
    rw [locate]
    cases found.2.findIdx? fun t => ItemSet.same t (ItemSet.move g s x) with
    | some j =>
        -- the set was known, and the row grows
        refine ⟨hlen, ?_⟩
        intro k hk hlt
        obtain ⟨y, hy⟩ := hall k hk hlt
        exact ⟨y, List.mem_append_left _ hy⟩
    | none =>
        -- the set is new, and its number is in the move that is added
        refine ⟨?_, ?_⟩
        · show start.length ≤ (found.2 ++ [_]).length
          rw [List.length_append]
          omega
        · intro k hk hlt
          change k < (found.2 ++ [_]).length at hlt
          rw [List.length_append, List.length_singleton] at hlt
          by_cases hlast : k = found.2.length
          · exact ⟨x, List.mem_append_right _ (by rw [hlast]; exact List.mem_cons_self)⟩
          · obtain ⟨y, hy⟩ := hall k hk (by omega)
            exact ⟨y, List.mem_append_left _ hy⟩

/-- Hence every set that is added while all symbols are tried is the target of one of
    the moves. -/
theorem Listed.foldl (g : Grammar) (s : ItemSet) (xs : List Symbol) {start : List ItemSet}
    {found : List (Symbol × Nat) × List ItemSet} (h : Listed start found) :
    Listed start (xs.foldl (Automaton.tryMove g s) found) := by
  induction xs generalizing found with
  | nil => exact h
  | cons x xs ih => exact ih (h.tryMove g s x)

/-- Every set but the first is the target of a move of an earlier set. -/
def Survey.Discovered (v : Survey) : Prop :=
  ∀ k < v.sets.length, k ≠ 0 → ∃ j < k, ∃ row, v.rows[j]? = some row ∧ ∃ x, (x, k) ∈ row

/-- A set that a visit adds is entered from the state that is visited. -/
theorem Survey.Discovered.visit {v : Survey} (h : v.Discovered) (g : Grammar)
    (symbols : List Symbol) {s : ItemSet} (hs : v.sets[v.rows.length]? = some s) :
    (v.visit g symbols s).Discovered := by
  obtain ⟨hlt, -⟩ := List.getElem?_eq_some_iff.mp hs
  have hlisted : Listed v.sets (symbols.foldl (tryMove g s) ([], v.sets)) :=
    Listed.foldl g s symbols
      ⟨Nat.le_refl _, fun k hk hlt => absurd hk (Nat.not_le_of_lt hlt)⟩
  intro k hk hne
  by_cases hold : k < v.sets.length
  · obtain ⟨j, hj, row, hrow, x, hx⟩ := h k hold hne
    obtain ⟨hjlt, -⟩ := List.getElem?_eq_some_iff.mp hrow
    refine ⟨j, hj, row, ?_, x, hx⟩
    show (v.rows ++ [_])[j]? = some row
    rw [List.getElem?_append_left hjlt]
    exact hrow
  · -- a new set is behind the one that is visited, whose row is the last
    obtain ⟨x, hx⟩ := hlisted.2 k (Nat.le_of_not_lt hold) hk
    refine ⟨v.rows.length, by omega, _, ?_, x, hx⟩
    show (v.rows ++ [_])[v.rows.length]? = some _
    rw [List.getElem?_append_right (Nat.le_refl _), Nat.sub_self]
    rfl

/-- In the finished survey every set but the first was entered from an earlier one. -/
theorem discovered_survey (g : Grammar) : (survey g).Discovered := by
  refine Survey.complete_induct (fun v s hs h => h.visit g g.symbols hs) _ ?_
  intro k hk hne
  have hone : k < 1 := hk
  omega

/-- Every state is reached by some word. -/
theorem Charted.exists_word {g : Grammar} (h : Charted g) :
    ∀ k < (build g).size, ∃ u, (build g).walk? 0 u = some k := by
  intro k
  induction k using Nat.strong_induction_on with
  | h k ih =>
      intro hk
      by_cases hzero : k = 0
      · exact ⟨[], by rw [hzero]; rfl⟩
      · have hsets : k < (survey g).sets.length := by
          rw [← h.rows_length.1, h.rows_length.2]
          exact hk
        obtain ⟨j, hj, row, hrow, x, hx⟩ := discovered_survey g k hsets hzero
        obtain ⟨u, hu⟩ := ih j hj (Nat.lt_trans hj hk)
        obtain ⟨st, hst, -⟩ := h.exists_state (List.getElem?_eq_getElem (Nat.lt_trans hj hsets))
        have hmem : (x, k) ∈ st.transitions := by
          obtain rfl := Option.some.inj (hrow.symm.trans (getElem?_states.mp hst).2.2)
          exact hx
        refine ⟨u ++ [x], ?_⟩
        rw [walk?_snoc, hu]
        exact h.goto?_eq_some_iff.mpr ⟨st, hst, hmem⟩

/-! ## The canonical automaton -/

/-- The automaton whose states are the sets of items that are valid for some
    word, each once. -/
structure Canonical (g : Grammar) (a : Automaton) : Prop where
  /-- A word leads to a state if and only if an item is valid for it. -/
  walks : ∀ u, (∃ k, a.walk? 0 u = some k) ↔ ∃ i, Item.Valid g u i
  /-- The state that a word leads to has exactly the items that are valid for the word. -/
  items : ∀ u k, a.walk? 0 u = some k →
    ∃ st, a.states[k]? = some st ∧ st.items.Nodup ∧ ∀ i, i ∈ st.items ↔ Item.Valid g u i
  /-- States with the same items are one state. -/
  distinct : ∀ (k l : Nat) (st st' : State), a.states[k]? = some st → a.states[l]? = some st' →
    (∀ i, i ∈ st.items ↔ i ∈ st'.items) → k = l
  /-- Every state is reached by some word. -/
  reached : ∀ k < a.size, ∃ u, a.walk? 0 u = some k
  /-- The states are numbered by their places. -/
  numbered : a.states.map State.id = List.range a.size

/-- An automaton with exactly the valid items is the canonical one. -/
theorem Charted.canonical {g : Grammar} (h : Charted g) : Canonical g (build g) where
  walks := by
    intro u
    constructor
    · rintro ⟨k, hk⟩
      obtain ⟨-, -, hvalid⟩ := h.exists_valid hk
      exact hvalid
    · rintro ⟨i, hi⟩
      obtain ⟨k, -, hk, -⟩ := h.exists_walk hi
      exact ⟨k, hk⟩
  items := by
    intro u k hk
    obtain ⟨st, hst, -⟩ := h.exists_valid hk
    refine ⟨st, hst, ?_, h.mem_items_iff hk hst⟩
    exact h.sound.orderly.nodup _ (List.mem_of_getElem? (getElem?_states.mp hst).2.1)
  distinct := fun k l st st' hst hst' hsame => h.state_unique hst hst' hsame
  reached := h.exists_word
  numbered := by
    -- place by place, with nothing behind the last state on either side
    refine List.ext_getElem? ?_
    intro k
    rw [List.getElem?_map]
    by_cases hk : k < (build g).size
    · have hst := List.getElem?_eq_getElem (l := (build g).states) hk
      rw [hst, Option.map_some, (getElem?_states.mp hst).1, List.getElem?_range hk]
    · have hout := Nat.le_of_not_lt hk
      rw [List.getElem?_eq_none (l := (build g).states) hout, Option.map_none,
        List.getElem?_eq_none (by rw [List.length_range]; exact hout)]

end Automaton

/-- The grammar of an analysis is the augmented one. -/
theorem Analysis.ensureAugmented_of_make {g : Grammar} {a : Analysis} (ha : make g = .ok a) :
    g.ensureAugmented = .ok a.grammar := by
  rw [make] at ha
  cases h : g.ensureAugmented with
  | error e =>
      rw [h] at ha
      cases ha
  | ok g' =>
      rw [h] at ha
      obtain rfl := Except.ok.inj ha
      rfl

namespace Grammar.Made

variable {g : Grammar} {a : Analysis}

/-- The grammar of an analysis was made, too, and has no longer bodies than
    before but that of rule 0. -/
theorem analyzed (hg : g.Made) (ha : Analysis.make g = .ok a) :
    a.grammar.Made ∧ ∀ r ∈ a.grammar.rules, r.body.length = 1 ∨ ∃ q ∈ g.rules, r.body = q.body := by
  have hensure := Analysis.ensureAugmented_of_make ha
  rw [Grammar.ensureAugmented] at hensure
  split at hensure
  · cases hensure
  · rename_i hne
    split at hensure
    · obtain heq := Except.ok.inj hensure
      rw [← heq]
      exact ⟨hg, fun r hr => Or.inr ⟨r, hr, rfl⟩⟩
    · obtain heq := Except.ok.inj hensure
      rw [← heq]
      refine ⟨.augmented hg (by rw [Grammar.augment, if_neg hne]), ?_⟩
      intro r hr
      rcases Grammar.mem_rules_augmented.mp hr with rfl | ⟨q, hq, rfl⟩
      · exact Or.inl rfl
      · exact Or.inr ⟨q, hq, rfl⟩

/-- It is planted, whether it was augmented before or not. -/
theorem planted_analyzed (hg : g.Made) (ha : Analysis.make g = .ok a) :
    a.grammar.Planted a.grammar.baseStart := by
  refine (hg.analyzed ha).1.planted ?_
  have hensure := Analysis.ensureAugmented_of_make ha
  rw [Grammar.ensureAugmented] at hensure
  split at hensure
  · cases hensure
  · split at hensure
    · rename_i haugmented
      rw [← Except.ok.inj hensure]
      exact haugmented
    · rw [← Except.ok.inj hensure]
      rfl

/-- All dots in its automaton are words. -/
theorem charted_analyzed (hg : g.Made) (ha : Analysis.make g = .ok a)
    (hbodies : ∀ r ∈ g.rules, r.body.length < 9223372036854775808) :
    Automaton.Charted a.grammar := by
  obtain ⟨hmade, hlengths⟩ := hg.analyzed ha
  obtain ⟨hchecked, hne⟩ := hmade.checked
  refine { hchecked with rule_zero := ?_, bounded := Or.inr ?_ }
  · obtain ⟨r, rules, hrules⟩ := List.exists_cons_of_ne_nil hne
    show (a.grammar.rules[0]?).isSome = true
    rw [hrules]
    rfl
  · intro r hr
    rcases hlengths r hr with hone | ⟨q, hq, hbody⟩
    · rw [hone]
      decide
    · rw [hbody]
      exact hbodies q hq

end Grammar.Made

/-- **The automaton is canonical.**  For every grammar that can be analysed,
    whether or not its alphabets are disjoint, the automaton has one state for
    every set of valid items, and the survey that builds it ends: its fuel is
    enough to visit all sets, and more fuel changes nothing. -/
theorem Analysis.automaton_canonical {g : Grammar} {a : Analysis} (hg : g.Made)
    (ha : Analysis.make g = .ok a)
    (hbodies : ∀ r ∈ g.rules, r.body.length < 9223372036854775808) :
    Automaton.Canonical a.grammar (Automaton.build a.grammar) ∧
      (Automaton.survey a.grammar).rows.length = (Automaton.survey a.grammar).sets.length ∧
      ∀ fuel, Nat.pow 2 (Automaton.itemCount a.grammar) ≤ fuel →
        Automaton.Survey.complete a.grammar a.grammar.symbols fuel
          { sets := [ItemSet.closure a.grammar [Item.start]], rows := [] }
            = Automaton.survey a.grammar := by
  have hcharted := hg.charted_analyzed ha hbodies
  have hfull := hcharted.rows_length.1
  refine ⟨hcharted.canonical, hfull, ?_⟩
  intro fuel hfuel
  obtain ⟨more, rfl⟩ := Nat.exists_eq_add_of_le hfuel
  rw [Automaton.Survey.complete_add]
  exact Automaton.Survey.complete_of_full hfull more

/-- A grammar with a symbol that is a terminal and a nonterminal. -/
def overlapGrammar : Grammar :=
  { name := "overlap", start := "S", terminals := ["a", "A"], nonterminals := ["S", "A"]
    rules := [{ id := 0, lhs := "S", body := ["A", "a"] }, { id := 1, lhs := "A", body := [] }] }

/-- In its automaton, the shared symbol leads on like any other. -/
theorem automaton_canonical_overlap :
    Automaton.Canonical overlapGrammar.augmented (Automaton.build overlapGrammar.augmented) ∧
      (Automaton.build overlapGrammar.augmented).walk? 0 ["A", "a"] = some 3 := by
  have hassembled : Grammar.assemble "overlap" "S" ["a", "A"] ["S", "A"]
      [some { id := 0, lhs := "S", body := ["A", "a"] }, some { id := 1, lhs := "A", body := [] }]
        = .ok overlapGrammar := rfl
  have hcanonical := Analysis.automaton_canonical (a := Analysis.ofGrammar overlapGrammar.augmented)
    (.assembled hassembled) rfl (by decide)
  exact ⟨hcanonical.1, by decide +kernel⟩

end ShiftReduce
