import ShiftReduce.Proofs.Automaton.Canonical

/-! # Entrance and exit — where an automaton begins and where it accepts

    No rule of a planted grammar asks for rule 0.  So the items of rule 0 are valid
    for two words only: the start item for the empty word, the accepting item for
    the word of the old start symbol (`Valid.of_rule_zero`).  Since every state lies
    on a path from state 0, it follows that no edge leads back to state 0 and that
    there is one accepting state, with one edge to it. -/

namespace ShiftReduce

/-! ## Items of rule 0 -/

namespace Item

variable {g : Grammar} {s : Symbol}

/-- Before the start symbol, that is the next symbol. -/
theorem next?_start (hg : g.Planted s) : Item.start.next? g = some s :=
  next?_of_rule hg.rule?_zero 0

/-- Behind the start symbol, nothing is left to read. -/
theorem next?_accepting (hg : g.Planted s) : Item.accepting.next? g = none :=
  next?_of_rule hg.rule?_zero 1

/-- Having read the start symbol, the start rule is complete. -/
theorem Valid.accepting (hg : g.Planted s) : Valid g [s] Item.accepting :=
  Valid.shift .start (next?_start hg)

/-- Rule 0 is begun at the very beginning, and its body is the old start symbol. -/
theorem Valid.of_rule_zero (hg : g.Planted s) {u : List Symbol} {i : Item} (h : Valid g u i)
    (hrule : i.rule = 0) : (i = Item.start ∧ u = []) ∨ (i = Item.accepting ∧ u = [s]) := by
  induction h with
  | start => exact Or.inl ⟨rfl, rfl⟩
  | shift _ hx ih =>
      rcases ih hrule with ⟨rfl, rfl⟩ | ⟨rfl, rfl⟩
      · obtain rfl := Option.some.inj ((next?_start hg).symm.trans hx)
        exact Or.inr ⟨rfl, rfl⟩
      · rw [next?_accepting hg] at hx
        cases hx
  | @close _ _ b r _ hb _ hr hlhs _ =>
      -- the start symbol would stand in a body
      obtain ⟨q, hq, d, -, hbody⟩ := next?_eq_some hb
      have hroot := hg.rule?_id hr
      rw [show r.id = 0 from hrule, hg.rule?_zero] at hroot
      rw [← hlhs, ← Option.some.inj hroot] at hbody
      exact absurd (List.mem_of_getElem? hbody) (hg.start_unused q (Grammar.mem_of_rule? hq))

/-- The accepting item is the only completed one of a rule of the start symbol. -/
theorem Known.eq_accepting (hg : g.Planted s) {k : Nat} {i : Item} (hi : i.Known g k)
    {r : Production} (hr : g.rule? i.rule = some r) (hnext : i.next? g = none)
    (hlhs : r.lhs = g.start) : i = Item.accepting := by
  obtain ⟨rule, dot⟩ := i
  obtain rfl : rule = 0 :=
    (hg.id_of_rule? hr).symm.trans (hg.root_only r (Grammar.mem_of_rule? hr) hlhs)
  obtain ⟨q, hq, hlow, hlen, -⟩ := hi
  obtain rfl := Option.some.inj (hg.rule?_zero.symm.trans hq)
  change 0 ≤ dot at hlow
  change dot ≤ ((1 : Nat) : Int) at hlen
  rcases show dot = 0 ∨ dot = 1 by omega with rfl | rfl
  · cases (next?_start hg).symm.trans hnext
  · rfl

end Item

/-! ## The edges of state 0 and of the accepting state -/

namespace Automaton

/-- One state accepts, and one edge leads to it, from state 0 on the symbol `s`.
    No edge leads to state 0. -/
structure Gated (a : Automaton) (s : Symbol) (exit : Nat) : Prop where
  exit_lt : exit < a.size
  accepts_iff : ∀ (k : Nat) (st : State), a.states[k]? = some st → (st.accepts = true ↔ k = exit)
  entered : a.goto? 0 s = some exit
  only_edge : ∀ (k : Nat) (st : State) (x : Symbol), a.states[k]? = some st →
    (x, exit) ∈ st.transitions → k = 0 ∧ x = s
  no_return : ∀ (k : Nat) (st : State) (x : Symbol), a.states[k]? = some st →
    (x, 0) ∉ st.transitions

namespace Gated

variable {a : Automaton} {s x : Symbol} {exit k : Nat}

/-- No transition leads back to the first state. -/
theorem goto?_ne_zero (h : a.Gated s exit) : a.goto? k x ≠ some 0 := by
  intro hgoto
  obtain ⟨st, hst, he⟩ := exists_transition hgoto
  exact h.no_return k st x hst he

/-- There is one way into the exit: from the first state, over the start symbol. -/
theorem source_eq (h : a.Gated s exit) (hgoto : a.goto? k x = some exit) : k = 0 ∧ x = s := by
  obtain ⟨st, hst, he⟩ := exists_transition hgoto
  exact h.only_edge k st x hst he

theorem exit_ne_zero (h : a.Gated s exit) : exit ≠ 0 := by
  rintro rfl
  exact h.goto?_ne_zero h.entered

end Gated

namespace Charted

variable {g : Grammar} {s : Symbol} {k l : Nat} {st : State} {x : Symbol}

/-- Every edge is the last one of a path from state 0. -/
theorem exists_path (h : Charted g) (hst : (build g).states[k]? = some st)
    (he : (x, l) ∈ st.transitions) :
    ∃ u, (build g).walk? 0 u = some k ∧ (build g).walk? 0 (u ++ [x]) = some l := by
  obtain ⟨hlt, -⟩ := List.getElem?_eq_some_iff.mp hst
  obtain ⟨u, hu⟩ := h.exists_word k hlt
  refine ⟨u, hu, ?_⟩
  rw [walk?_snoc, hu]
  exact h.goto?_eq_some_iff.mpr ⟨st, hst, he⟩

/-- The start item is in no state that an edge leads to. -/
theorem no_return (h : Charted g) (hg : g.Planted s) (hst : (build g).states[k]? = some st) :
    (x, 0) ∉ st.transitions := by
  intro he
  obtain ⟨u, -, hwalk⟩ := h.exists_path hst he
  obtain ⟨st₀, hst₀, hitems⟩ := h.exists_start
  have hmem : Item.start ∈ st₀.items := by
    rw [hitems]
    exact ItemSet.mem_closure_of_mem List.mem_cons_self
  have hvalid := (h.mem_items_iff hwalk hst₀ _).mp hmem
  rcases hvalid.of_rule_zero hg rfl with ⟨-, hnil⟩ | ⟨heq, -⟩
  · exact List.cons_ne_nil _ _ (List.append_eq_nil_iff.mp hnil).2
  · cases heq

/-- A state that accepts is reached by the word of the old start symbol only. -/
theorem eq_singleton_of_accepts (h : Charted g) (hg : g.Planted s) {u : List Symbol}
    (hwalk : (build g).walk? 0 u = some k) (hst : (build g).states[k]? = some st)
    (haccepts : st.accepts = true) : u = [s] := by
  have hvalid := (h.mem_items_iff hwalk hst _).mp (State.accepts_iff.mp haccepts)
  rcases hvalid.of_rule_zero hg rfl with ⟨heq, -⟩ | ⟨-, hu⟩
  · cases heq
  · exact hu

/-- The automaton of a planted grammar has one entrance and one exit. -/
theorem exists_gated (h : Charted g) (hg : g.Planted s) : ∃ exit, (build g).Gated s exit := by
  obtain ⟨exit, st, hwalk, hst, hmem⟩ := h.exists_walk (Item.Valid.accepting hg)
  obtain ⟨hlt, -⟩ := List.getElem?_eq_some_iff.mp hst
  have haccepts : st.accepts = true := State.accepts_iff.mpr hmem
  refine ⟨exit, hlt, ?_, ?_, ?_, fun k st' x hst' => h.no_return hg hst'⟩
  · -- another accepting state would be reached by the same word
    intro k st' hst'
    constructor
    · intro haccepts'
      obtain ⟨hk, -⟩ := List.getElem?_eq_some_iff.mp hst'
      obtain ⟨u, hu⟩ := h.exists_word k hk
      rw [h.eq_singleton_of_accepts hg hu hst' haccepts', hwalk] at hu
      exact (Option.some.inj hu).symm
    · rintro rfl
      rw [← Option.some.inj (hst.symm.trans hst')]
      exact haccepts
  · have hsnoc := walk?_snoc (build g) 0 [] s
    exact hsnoc.symm.trans hwalk
  · -- the path through the edge is the word of the old start symbol
    intro k st' x hst' he
    obtain ⟨u, hu, hlast⟩ := h.exists_path hst' he
    obtain ⟨rfl, hx⟩ := List.append_eq_singleton_iff.mp
      (h.eq_singleton_of_accepts hg hlast hst haccepts) |>.resolve_right (by simp)
    obtain rfl := Option.some.inj hu
    exact ⟨rfl, List.head_eq_of_cons_eq hx⟩

end Charted

end Automaton

end ShiftReduce
