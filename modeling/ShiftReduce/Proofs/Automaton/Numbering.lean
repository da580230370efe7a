import ShiftReduce.Proofs.Automaton.Entrance
import ShiftReduce.Proofs.Automaton.Worklist
import ShiftReduce.Proofs.FirstOccurrences

/-! # Numbering — states are numbered in the order in which they are found

    The invariant of the survey is about the targets of all moves that it has
    entered, row by row: with number 0 in front, their first occurrences are the
    numbers of the sets, in order (`InOrder`).  It is kept by every single move: a
    set that is known has its number in the list already, and a new set gets the
    number that comes next.  Each row names, in the order of the symbols of the
    grammar, the symbols that some item of its set expects.

    No move leads to state 0, so the first occurrences without the number in front
    are those of the moves.  That the survey numbers the states like a worklist from
    which the least number is taken is proved in `Proofs.Automaton.Worklist`. -/

namespace ShiftReduce

namespace Automaton

/-! ## The order of the targets -/

/-- The first occurrences of number 0 and the targets are the first `n` numbers. -/
def InOrder (targets : List Nat) (n : Nat) : Prop :=
  (0 :: targets).eraseDups = List.range n

namespace InOrder

variable {targets : List Nat} {n k : Nat}

/-- A target that is known already does not disturb the order. -/
theorem known (h : InOrder targets n) (hk : k < n) : InOrder (targets ++ [k]) n := by
  have hmem : k ∈ 0 :: targets := by
    rw [← List.mem_eraseDups, h]
    exact List.mem_range.mpr hk
  have hconcat := eraseDups_concat (0 :: targets) k
  rw [if_pos hmem] at hconcat
  exact hconcat.trans h

/-- A new target has the next number. -/
theorem new (h : InOrder targets n) : InOrder (targets ++ [n]) (n + 1) := by
  have hnot : n ∉ 0 :: targets := by
    rw [← List.mem_eraseDups, h]
    exact List.not_mem_range_self
  have hconcat := eraseDups_concat (0 :: targets) n
  rw [if_neg hnot, h, ← List.range_succ] at hconcat
  exact hconcat

/-- A move is entered with the number of its target. -/
theorem tryMove {before : List Nat} {found : List (Symbol × Nat) × List ItemSet}
    (h : InOrder (before ++ found.1.map Prod.snd) found.2.length) (g : Grammar) (s : ItemSet)
    (x : Symbol) :
    InOrder (before ++ (tryMove g s found x).1.map Prod.snd) (tryMove g s found x).2.length := by
  rw [Automaton.tryMove]
  split
  · exact h
  · show InOrder (before ++ (found.1 ++ [(x, (locate found.2 (ItemSet.move g s x)).1)]).map Prod.snd)
      (locate found.2 (ItemSet.move g s x)).2.length
    rw [List.map_append, List.map_singleton, ← List.append_assoc, locate]
    cases hfind : found.2.findIdx? fun t => ItemSet.same t (ItemSet.move g s x) with
    | some k =>
        obtain ⟨hlt, -⟩ := List.findIdx?_eq_some_iff_getElem.mp hfind
        exact h.known hlt
    | none =>
        show InOrder _ (found.2 ++ [_]).length
        rw [List.length_append, List.length_singleton]
        exact h.new

end InOrder

/-- The targets of all moves that have been entered, row by row. -/
def Survey.targets (v : Survey) : List Nat :=
  v.rows.flatMap fun row => row.map Prod.snd

/-- A visit numbers its new targets in the order in which it comes to them. -/
theorem InOrder.visit {v : Survey} (h : InOrder v.targets v.sets.length) (g : Grammar)
    (symbols : List Symbol) (s : ItemSet) :
    InOrder (v.visit g symbols s).targets (v.visit g symbols s).sets.length := by
  have hrow := List.foldlRecOn symbols (Automaton.tryMove g s)
    (motive := fun found => InOrder (v.targets ++ found.1.map Prod.snd) found.2.length)
    (b := ([], v.sets)) (by rw [List.map_nil, List.append_nil]; exact h)
    fun found hfound x _ => hfound.tryMove g s x
  -- the row of the visit comes behind the others
  have htargets : (v.visit g symbols s).targets
      = v.targets ++ (symbols.foldl (Automaton.tryMove g s) ([], v.sets)).1.map Prod.snd := by
    show (v.rows ++ [_]).flatMap _ = _
    rw [List.flatMap_append, List.flatMap_singleton]
    rfl
  rw [htargets]
  exact hrow

/-- So does the whole survey. -/
theorem inOrder_survey (g : Grammar) : InOrder (survey g).targets (survey g).sets.length :=
  Survey.complete_induct (P := fun v => InOrder v.targets v.sets.length)
    (fun _ s _ h => h.visit g g.symbols s) _ rfl

/-! ## The symbols of a row -/

/-- The symbols over which a set of items can be moved, in the order of the symbols
    of the grammar. -/
def movable (g : Grammar) (s : ItemSet) : List Symbol :=
  g.symbols.filter fun x => !(ItemSet.move g s x).isEmpty

/-- A symbol is entered if the move over it leads somewhere. -/
theorem symbols_tryMove (g : Grammar) (s : ItemSet) (found : List (Symbol × Nat) × List ItemSet)
    (x : Symbol) : (tryMove g s found x).1.map Prod.fst
      = found.1.map Prod.fst ++ [x].filter fun y => !(ItemSet.move g s y).isEmpty := by
  rw [tryMove]
  split
  · rename_i hmove
    simp [hmove]
  · rename_i hmove
    simp [List.isEmpty_eq_false_iff.mpr hmove]

/-- A row lists the symbols that lead somewhere, in the order of the grammar. -/
theorem symbols_foldl (g : Grammar) (s : ItemSet) (xs : List Symbol)
    (found : List (Symbol × Nat) × List ItemSet) : (xs.foldl (tryMove g s) found).1.map Prod.fst
      = found.1.map Prod.fst ++ xs.filter fun x => !(ItemSet.move g s x).isEmpty := by
  induction xs generalizing found with
  | nil => rw [List.foldl_nil, List.filter_nil, List.append_nil]
  | cons x xs ih =>
      rw [List.foldl_cons, ih, symbols_tryMove, List.append_assoc, ← List.filter_append,
        List.singleton_append]

/-- Every row has the symbols over which its set can be moved. -/
def Survey.Tabulated (g : Grammar) (v : Survey) : Prop :=
  ∀ (k : Nat) row, v.rows[k]? = some row →
    ∃ s, v.sets[k]? = some s ∧ row.map Prod.fst = movable g s

/-- A visit adds one row, for the state that it visits. -/
theorem Survey.Tabulated.visit {g : Grammar} {v : Survey} (h : v.Tabulated g) {s : ItemSet}
    (hs : v.sets[v.rows.length]? = some s) : (v.visit g g.symbols s).Tabulated g := by
  have hsets := prefix_foldl_tryMove g s g.symbols ([], v.sets)
  have hkept : ∀ {k : Nat} {t : ItemSet}, v.sets[k]? = some t →
      (v.visit g g.symbols s).sets[k]? = some t := by
    intro k t ht
    obtain ⟨hlt, rfl⟩ := List.getElem?_eq_some_iff.mp ht
    exact List.prefix_iff_getElem?.mp hsets k hlt
  intro k row hrow
  change (v.rows ++ [(g.symbols.foldl (tryMove g s) ([], v.sets)).1])[k]? = some row at hrow
  rcases Nat.lt_or_ge k v.rows.length with hk | hk
  · rw [List.getElem?_append_left hk] at hrow
    obtain ⟨t, ht, hsymbols⟩ := h k row hrow
    exact ⟨t, hkept ht, hsymbols⟩
  · -- the row of the set that is visited is the last one
    obtain ⟨hlt, rfl⟩ := List.getElem?_eq_some_iff.mp hrow
    rw [List.length_append, List.length_singleton] at hlt
    obtain rfl : k = v.rows.length := by omega
    refine ⟨s, hkept hs, ?_⟩
    rw [List.getElem_concat_length rfl, symbols_foldl]
    rfl

/-- In the finished survey every state has its row. -/
theorem tabulated_survey (g : Grammar) : (survey g).Tabulated g :=
  Survey.complete_induct (P := Survey.Tabulated g) (fun _ _ hs h => h.visit hs) _
    fun _ _ hrow => nomatch hrow

/-! ## The automaton -/

/-- An automaton whose states are numbered breadth first. -/
structure BreadthFirst (g : Grammar) (a : Automaton) : Prop where
  /-- The states are numbered by their places. -/
  numbered : a.states.map State.id = List.range a.size
  /-- Through the transitions of all states, every other state is met for the first time
      in the order of its number. -/
  discovered : (a.states.flatMap fun st => st.transitions.map Prod.snd).eraseDups
    = List.range' 1 (a.size - 1)
  /-- The transitions of a state stand in the order of the symbols of the grammar. -/
  ordered : ∀ st ∈ a.states, (st.transitions.map Prod.fst).Sublist g.symbols
  /-- There is one transition on a symbol. -/
  once : ∀ st ∈ a.states, (st.transitions.map Prod.fst).Nodup
  /-- There is one if and only if an item of the state expects the symbol. -/
  expected : ∀ st ∈ a.states, ∀ x,
    x ∈ st.transitions.map Prod.fst ↔ ∃ i ∈ st.items, i.next? g = some x

/-- The symbols of a grammar are listed once each. -/
theorem nodup_symbols (g : Grammar) : g.symbols.Nodup :=
  (nodup_eraseDups _).filter _

/-- The transitions of a state are over the symbols that an item of it has next. -/
theorem symbols_transitions {g : Grammar} {st : State} (hst : st ∈ (build g).states) :
    st.transitions.map Prod.fst = movable g st.items := by
  obtain ⟨k, hk⟩ := List.mem_iff_getElem?.mp hst
  obtain ⟨-, hitems, hrow⟩ := getElem?_states.mp hk
  obtain ⟨t, ht, hsymbols⟩ := tabulated_survey g k _ hrow
  obtain rfl := Option.some.inj (hitems.symm.trans ht)
  exact hsymbols

namespace Charted

variable {g : Grammar} {s : Symbol}

/-- The transitions of the states are the rows of the survey. -/
theorem map_transitions (h : Charted g) :
    (build g).states.map State.transitions = (survey g).rows := by
  refine List.ext_getElem? ?_
  intro k
  rw [List.getElem?_map]
  cases hst : (build g).states[k]? with
  | some st => exact (getElem?_states.mp hst).2.2.symm
  | none => exact (h.getElem?_eq_none hst).2.symm

/-- A symbol leads somewhere if some item reads it next. -/
theorem mem_movable (h : Charted g) {items : ItemSet} {x : Symbol} :
    x ∈ movable g items ↔ ∃ i ∈ items, i.next? g = some x := by
  have hmove : (!(ItemSet.move g items x).isEmpty) = true ↔ ItemSet.move g items x ≠ [] := by
    rw [Bool.not_eq_true', List.isEmpty_eq_false_iff]
  rw [movable, List.mem_filter, hmove]
  constructor
  · rintro ⟨hx, hne⟩
    exact (ItemSet.move_ne_nil (symbols_ne_empty h.toChecked x hx).2).mp hne
  · rintro ⟨i, hi, hnext⟩
    obtain ⟨r, hr, d, -, hbody⟩ := Item.next?_eq_some hnext
    have hdecl := h.body_mem r (Grammar.mem_of_rule? hr) x (List.mem_of_getElem? hbody)
    exact ⟨mem_symbols h.toChecked hdecl,
      (ItemSet.move_ne_nil (h.ne_of_mem hdecl).2.2).mpr ⟨i, hi, hnext⟩⟩

/-- Every state but the first is met first in the order of its number. -/
theorem discovered (h : Charted g) (hg : g.Planted s) :
    ((build g).states.flatMap fun st => st.transitions.map Prod.snd).eraseDups
      = List.range' 1 ((build g).size - 1) := by
  have htargets : (build g).states.flatMap (fun st => st.transitions.map Prod.snd)
      = (survey g).targets := by
    rw [Survey.targets, ← h.map_transitions, List.flatMap_map]
  -- number 0 is in front of the targets and not among them
  have hzero : 0 ∉ (survey g).targets := by
    rw [← htargets]
    intro hmem
    obtain ⟨st, hst, he⟩ := List.mem_flatMap.mp hmem
    obtain ⟨⟨x, _⟩, he, rfl⟩ := List.mem_map.mp he
    obtain ⟨k, hk⟩ := List.mem_iff_getElem?.mp hst
    exact h.no_return hg hk he
  have horder : 0 :: (survey g).targets.eraseDups = List.range (build g).size := by
    rw [← h.rows_length.2, h.rows_length.1, ← eraseDups_cons_of_notMem hzero]
    exact inOrder_survey g
  obtain ⟨n, hn⟩ : ∃ n, (build g).size = n + 1 := by
    refine Nat.exists_eq_succ_of_ne_zero ?_
    intro hnone
    rw [hnone] at horder
    exact List.cons_ne_nil _ _ horder
  rw [hn, List.range_eq_range', List.range'_succ] at horder
  rw [htargets, hn]
  exact (List.cons.inj horder).2

/-- The survey visits the states breadth first. -/
theorem breadthFirst (h : Charted g) (hg : g.Planted s) : (build g).BreadthFirst g where
  numbered := h.canonical.numbered
  discovered := h.discovered hg
  ordered := by
    intro st hst
    rw [symbols_transitions hst]
    exact List.filter_sublist
  once := by
    intro st hst
    rw [symbols_transitions hst]
    exact (nodup_symbols g).filter _
  expected := by
    intro st hst x
    rw [symbols_transitions hst]
    exact h.mem_movable

end Charted

end Automaton

/-- **The numbering is breadth first.**  For every grammar that can be analysed, the
    states of the automaton are numbered in the order in which their transitions first
    lead to them, and the transitions of a state are those on the symbols that its items
    expect, in the order of the symbols of the grammar.  The worklist that always takes
    the waiting state with the least number ends, and it ends with these states. -/
theorem Analysis.numbered_breadth_first {g : Grammar} {a : Analysis} (hg : g.Made)
    (ha : Analysis.make g = .ok a)
    (hbodies : ∀ r ∈ g.rules, r.body.length < 9223372036854775808) :
    (Automaton.build a.grammar).BreadthFirst a.grammar ∧
      ∀ states, Automaton.Agenda.Ends a.grammar (Automaton.Agenda.initial a.grammar) states ↔
        states = (Automaton.build a.grammar).states := by
  have hcharted := hg.charted_analyzed ha hbodies
  exact ⟨hcharted.breadthFirst (hg.planted_analyzed ha), fun _ => hcharted.ends_initial_iff⟩

/-- A grammar for a letter in brackets. -/
def nestedGrammar : Grammar :=
  { name := "nested", start := "S", terminals := ["(", ")", "a"], nonterminals := ["S"]
    rules := [{ id := 0, lhs := "S", body := ["(", "S", ")"] }, { id := 1, lhs := "S", body := ["a"] }] }

/-- Its states are found one after the other, and states 2 and 3 are met again behind an
    opening bracket. -/
theorem numbered_breadth_first_nested :
    (Automaton.build nestedGrammar.augmented).BreadthFirst nestedGrammar.augmented ∧
      ((Automaton.build nestedGrammar.augmented).states.map fun st => st.transitions.map Prod.snd)
        = [[1, 2, 3], [], [4, 2, 3], [], [5], []] := by
  have hassembled : Grammar.assemble "nested" "S" ["(", ")", "a"] ["S"]
      [some { id := 0, lhs := "S", body := ["(", "S", ")"] },
        some { id := 1, lhs := "S", body := ["a"] }] = .ok nestedGrammar := rfl
  have hnumbered := Analysis.numbered_breadth_first
    (a := Analysis.ofGrammar nestedGrammar.augmented) (.assembled hassembled) rfl (by decide)
  exact ⟨hnumbered.1, by decide +kernel⟩

end ShiftReduce
