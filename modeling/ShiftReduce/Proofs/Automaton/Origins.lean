import ShiftReduce.Proofs.Automaton.Entrance

/-! # Origins — where the items of a state were begun

    An item tells which symbols of its rule have been passed.  Whatever path leads to
    a state, these are the last symbols of the path, for every item of the state, and
    the state in front of them has the item with its dot in front and an edge with
    the left side of the rule (`Origin`).  So a parser can take the symbols back and
    go on from there, without knowing on which path it came.

    The items that are valid for a word are split there already (`Valid.split`), and
    a word leads to the state of its valid items.  Since the last symbol of every
    path is before the dot of the same item, all edges to a state have the same
    symbol. -/

namespace ShiftReduce

namespace Item

variable {g : Grammar} {s : Symbol}

/-- What an item has read is the body up to its point. -/
theorem before?_eq_take {i : Item} {r : Production} (hr : g.rule? i.rule = some r) {d : Nat}
    (hd : i.dot = d) (hle : d ≤ r.body.length) : i.before? g = some (r.body.take d) := by
  rw [before?, hr]
  dsimp only
  split
  · rename_i hempty
    rw [List.isEmpty_iff.mp hempty, List.take_nil]
  · have hinside : (decide (0 ≤ i.dot) && decide (i.dot ≤ r.body.length)) = true := by
      simp [hd, hle]
    rw [if_pos hinside, hd, Int.toNat_natCast]

/-- The symbol before the dot of a valid item is the last one of the word. -/
theorem Valid.last_unique (hg : g.Planted s) {u v : List Symbol} {x y : Symbol} {i : Item}
    (hu : Valid g (u ++ [x]) i) (hv : Valid g (v ++ [y]) i) (hdot : i.dot ≠ 0) : x = y := by
  obtain ⟨r, hr, d, hd, hle, u', hu', -⟩ := hu.split hg
  obtain ⟨q, hq, e, he, -, v', hv', -⟩ := hv.split hg
  obtain rfl : r = q := Option.some.inj (hr.symm.trans hq)
  obtain rfl : d = e := by omega
  have hne : r.body.take d ≠ [] := by
    intro hnil
    rcases List.take_eq_nil_iff.mp hnil with hzero | hnil
    · omega
    · rw [hnil, List.length_nil] at hle
      omega
  have hlast : ∀ {w w' : List Symbol} {z : Symbol}, w ++ [z] = w' ++ r.body.take d →
      (r.body.take d).getLast? = some z := by
    intro w w' z heq
    rw [← List.getLast?_append_of_ne_nil w' hne, ← heq, List.getLast?_concat]
  exact Option.some.inj ((hlast hu').symm.trans (hlast hv'))

end Item

namespace Automaton

/-- An item of the rule `r` was begun behind the word `v`, in the state `j`: its rule
    and dot are in range, `v` and the symbols before the dot make up the word `u`, and
    the state has the item with the dot in front and an edge with the left side of
    the rule, unless it is rule 0. -/
structure Origin (a : Automaton) (u : List Symbol) (i : Item) (r : Production)
    (v : List Symbol) (j : Nat) : Prop where
  rule_eq : a.grammar.rule? i.rule = some r
  rule_nonneg : 0 ≤ i.rule
  rule_lt : i.rule < a.grammar.size
  dot_nonneg : 0 ≤ i.dot
  dot_le : i.dot ≤ r.body.length
  split : ∃ before, i.before? a.grammar = some before ∧ u = v ++ before
  reached : a.walk? 0 v = some j
  begun : ∃ st, a.states[j]? = some st ∧ ⟨i.rule, 0⟩ ∈ st.items
  leads_on : 0 < i.rule → ∃ l, a.goto? j r.lhs = some l

namespace Charted

variable {g : Grammar} {s : Symbol}

/-- A valid item has an origin. -/
theorem exists_origin (h : Charted g) (hg : g.Planted s) {u : List Symbol} {i : Item}
    (hi : i.Valid g u) : ∃ r v j, (build g).Origin u i r v j := by
  obtain ⟨r, hr, d, hd, hle, v, hu, hv⟩ := hi.split hg
  -- the rule was begun in the state that the part before the left side leads to
  obtain ⟨j, st, hj, hst, hmem⟩ := h.exists_walk hv
  have hid : r.id = i.rule := hg.id_of_rule? hr
  obtain ⟨hnonneg, hlt⟩ := hg.id_range (Grammar.mem_of_rule? hr)
  rw [hid] at hnonneg hlt
  refine ⟨r, v, j,
    { rule_eq := hr, rule_nonneg := hnonneg, rule_lt := hlt
      dot_nonneg := by omega
      dot_le := by omega
      split := ⟨r.body.take d, Item.before?_eq_take hr hd hle, hu⟩
      reached := hj
      begun := ⟨st, hst, hmem⟩
      leads_on := ?_ }⟩
  intro hpos
  have hlhs : r.lhs ≠ g.start := by
    intro hstart
    have hzero := hg.root_only r (Grammar.mem_of_rule? hr) hstart
    omega
  rw [← hid] at hv
  -- only the start rule has no edge for its left side
  obtain ⟨k, l, hk, hgoto⟩ := h.exists_goto_lhs hg (Grammar.mem_of_rule? hr) hlhs hv
  obtain rfl : j = k := Option.some.inj (hj.symm.trans hk)
  exact ⟨l, hgoto⟩

/-- All edges to a state have the same symbol. -/
theorem edge_symbol_unique (h : Charted g) (hg : g.Planted s) {k l t : Nat} {st st' : State}
    {x y : Symbol} (hst : (build g).states[k]? = some st) (hst' : (build g).states[l]? = some st')
    (hx : (x, t) ∈ st.transitions) (hy : (y, t) ∈ st'.transitions) : x = y := by
  obtain ⟨u, hu, hut⟩ := h.exists_path hst hx
  obtain ⟨v, hv, hvt⟩ := h.exists_path hst' hy
  -- an item that is moved along the first edge is valid for both paths
  obtain ⟨i, hi, hnext⟩ := h.exists_expecting hst hx
  have hmoved := ((h.mem_items_iff hu hst i).mp hi).shift hnext
  obtain ⟨-, -, target, htarget, -⟩ := h.target hst hx
  have hmem := (h.mem_items_iff hut htarget _).mpr hmoved
  have hdot : i.dot + 1 ≠ 0 := by
    obtain ⟨-, -, hlow, -⟩ := (h.known hst hi).1
    omega
  exact hmoved.last_unique hg ((h.mem_items_iff hvt htarget _).mp hmem) hdot

end Charted

end Automaton

/-- **Items describe the path to their state.**  For every grammar that can be
    analysed, every word that leads to a state of its automaton and every item of the
    state, the item has an origin on the path that the word takes.  All edges to a
    state have the same symbol. -/
theorem Analysis.items_describe_paths {g : Grammar} {a : Analysis} (hg : g.Made)
    (ha : Analysis.make g = .ok a)
    (hbodies : ∀ r ∈ g.rules, r.body.length < 9223372036854775808) :
    (∀ (u : List Symbol) (k : Nat) (st : Automaton.State),
      (Automaton.build a.grammar).walk? 0 u = some k →
      (Automaton.build a.grammar).states[k]? = some st →
        ∀ i ∈ st.items, ∃ r v j, (Automaton.build a.grammar).Origin u i r v j) ∧
      ∀ (k l t : Nat) (st st' : Automaton.State) (x y : Symbol),
        (Automaton.build a.grammar).states[k]? = some st →
        (Automaton.build a.grammar).states[l]? = some st' →
          (x, t) ∈ st.transitions → (y, t) ∈ st'.transitions → x = y := by
  have hcharted := hg.charted_analyzed ha hbodies
  have hplanted := hg.planted_analyzed ha
  refine ⟨?_, fun k l t st st' x y hst hst' => hcharted.edge_symbol_unique hplanted hst hst'⟩
  intro u k st hwalk hst i hi
  exact hcharted.exists_origin hplanted ((hcharted.mem_items_iff hwalk hst i).mp hi)

/-- The item of the shared symbol's rule behind that symbol and a terminal. -/
theorem items_describe_paths_overlap :
    ∃ st, (Automaton.build overlapGrammar.augmented).states[3]? = some st ∧
      ∃ i ∈ st.items, ∃ r v j,
        (Automaton.build overlapGrammar.augmented).Origin ["A", "a"] i r v j := by
  have hassembled : Grammar.assemble "overlap" "S" ["a", "A"] ["S", "A"]
      [some { id := 0, lhs := "S", body := ["A", "a"] }, some { id := 1, lhs := "A", body := [] }]
        = .ok overlapGrammar := rfl
  have hpaths := Analysis.items_describe_paths (a := Analysis.ofGrammar overlapGrammar.augmented)
    (.assembled hassembled) rfl (by decide)
  have hstate : (Automaton.build overlapGrammar.augmented).states[3]?
      = some { id := 3, items := [⟨1, 2⟩], transitions := [] } := by decide +kernel
  exact ⟨_, hstate, ⟨1, 2⟩, List.mem_cons_self,
    hpaths.1 ["A", "a"] 3 _ (by decide +kernel) hstate _ List.mem_cons_self⟩

end ShiftReduce
