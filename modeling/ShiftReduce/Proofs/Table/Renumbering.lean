import ShiftReduce.Proofs.Analysis.Renumbering
import ShiftReduce.Proofs.Automaton.Renumbering
import ShiftReduce.Proofs.Table.Contents

/-! # Renumbering and the tables — the same cells, renamed

    The candidates of a cell are read off the items and transitions of a state and
    off FOLLOW, so the candidates of corresponding cells correspond
    (`Reordered.candidate_iff`).  Different candidates stay different, hence there
    are conflicts in both tables or in none.  Which candidate prevails does depend
    on rule numbers; but without conflicts there is only one, and the tables
    correspond cell by cell. -/

namespace ShiftReduce

/-- The action with other state and rule numbers. -/
def Action.renumbered (state : Nat → Nat) (rule : Int → Int) : Action → Action
  | .shift k => .shift (state k.toNat)
  | .reduce p => .reduce (rule p)
  | .accept => .accept

namespace Table

/-- Two tables whose cells correspond. -/
structure Corresponds (number : Int → Int) (σ : Nat → Nat) (t t' : Table) : Prop where
  size : t'.stateCount = t.stateCount
  action : ∀ k < t.stateCount, ∀ x,
    t'.action? (σ k) x = (t.action? k x).map (Action.renumbered σ number)
  goto : ∀ k < t.stateCount, ∀ x, t'.goto? (σ k) x = (t.goto? k x).map fun l => (σ l.toNat : Int)

/-! ## One table -/

section Single

variable {g : Grammar} {s : Symbol} {k : Nat} {st : Automaton.State} {x : Symbol} {a : Action}

/-- A state has a completed item of a rule. -/
def Completes (g : Grammar) (st : Automaton.State) (r : Production) : Prop :=
  ∃ i ∈ st.items, g.rule? i.rule = some r ∧ i.next? g = none

/-- There are no conflicts if and only if no cell has two candidates. -/
theorem Tabular.conflicts_eq_nil_iff (h : Tabular g s) :
    (ofGrammar g).conflicts = [] ↔
      ∀ (k : Nat) (st : Automaton.State) (x : Symbol) (a b : Action),
        (Automaton.build g).states[k]? = some st → Candidate g st x a → Candidate g st x b →
          a = b := by
  constructor
  · intro hnil k st x a b hst ha hb
    have hentry := h.action?_of_candidate hnil hst ha
    exact Option.some.inj (hentry.symm.trans (h.action?_of_candidate hnil hst hb))
  · intro hunique
    rw [h.conflicts_eq, List.flatMap_eq_nil_iff]
    intro st hmem
    obtain ⟨k, hst⟩ := List.mem_iff_getElem?.mp hmem
    refine List.eq_nil_iff_forall_not_mem.mpr ?_
    intro d hd
    obtain ⟨w, hw, hcand, hne, -⟩ := (h.mem_losers_iff hst).mp hd
    exact hne (hunique k st _ _ _ hst hcand (h.candidate_of_winner hst hw))

/-- Without conflicts the candidates are the entries. -/
theorem Tabular.action?_iff_candidate (h : Tabular g s) (hnil : (ofGrammar g).conflicts = [])
    (hst : (Automaton.build g).states[k]? = some st) :
    (ofGrammar g).action? k x = some a ↔ Candidate g st x a := by
  constructor
  · intro ha
    obtain ⟨n, st', hk, hst', hcand⟩ := h.candidate_of_action? ha
    obtain rfl : k = n := by omega
    obtain rfl := Option.some.inj (hst.symm.trans hst')
    exact hcand
  · exact h.action?_of_candidate hnil hst

end Single

/-! ## Two tables -/

/-- A grammar and the one with renumbered rules, with their automata. -/
structure Reordered (number : Int → Int) (σ : Nat → Nat) (g g' : Grammar) (s : Symbol) : Prop where
  tabular : Tabular g s
  tabular' : Tabular g' s
  renumbers : Grammar.Renumbers number g g'
  follow : ∀ y, (Analysis.ofGrammar g').follow y = (Analysis.ofGrammar g).follow y
  isomorphic : Automaton.Isomorphic number σ (Automaton.build g) (Automaton.build g')

namespace Reordered

variable {number : Int → Int} {σ : Nat → Nat} {g g' : Grammar} {s : Symbol} {k : Nat}
  {st st' : Automaton.State} {x : Symbol} {a b : Action}

/-- A state and the one it is renumbered to match. -/
theorem matches_of_state (h : Reordered number σ g g' s)
    (hst : (Automaton.build g).states[k]? = some st)
    (hst' : (Automaton.build g').states[σ k]? = some st') : st.Matches number σ st' := by
  obtain ⟨st'', hst'', hmatch⟩ := h.isomorphic.states k st hst
  obtain rfl := Option.some.inj (hst'.symm.trans hst'')
  exact hmatch

/-- Matching states complete the same rules, renumbered. -/
theorem completes_iff (h : Reordered number σ g g' s)
    (hst : (Automaton.build g).states[k]? = some st) (hmatch : st.Matches number σ st')
    {r' : Production} :
    Completes g' st' r' ↔ ∃ r, Completes g st r ∧ r.renumbered number = r' := by
  have hg := h.tabular.toChecked
  have hg' := h.tabular'.toChecked
  constructor
  · rintro ⟨j, hj, hr', hnext⟩
    obtain ⟨i, hi, rfl⟩ := (hmatch.items j).mp hj
    obtain ⟨r, hr, -⟩ := (h.tabular.known hst hi).1
    rw [Item.next?_renumbered h.renumbers hg hg' hr] at hnext
    refine ⟨r, ⟨i, hi, hr, hnext⟩, ?_⟩
    exact Option.some.inj ((h.renumbers.rule?_number hg hg' hr).symm.trans hr')
  · rintro ⟨r, ⟨i, hi, hr, hnext⟩, rfl⟩
    refine ⟨_, (hmatch.items _).mpr ⟨i, hi, rfl⟩, h.renumbers.rule?_number hg hg' hr, ?_⟩
    rw [Item.next?_renumbered h.renumbers hg hg' hr]
    exact hnext

/-- What can be done in a state is what can be done in the corresponding one, with
    other numbers. -/
theorem candidate_iff (h : Reordered number σ g g' s)
    (hst : (Automaton.build g).states[k]? = some st)
    (hst' : (Automaton.build g').states[σ k]? = some st') :
    Candidate g' st' x b ↔ ∃ a, Candidate g st x a ∧ a.renumbered σ number = b := by
  have hmatch := h.matches_of_state hst hst'
  have hstart := h.renumbers.start
  have hterminals := h.renumbers.terminals
  constructor
  · intro hb
    -- the same three kinds on both sides; completed
    -- rules and edges are carried over one by one
    cases hb with
    | shift hx hl =>
        obtain ⟨m, hm, rfl⟩ := (hmatch.transitions _ _).mp hl
        exact ⟨.shift m, .shift (hterminals ▸ hx) hm, rfl⟩
    | accept hj hr' hnext' hlhs =>
        obtain ⟨r, ⟨i, hi, hr, hnext⟩, rfl⟩ :=
          (h.completes_iff hst hmatch).mp ⟨_, hj, hr', hnext'⟩
        exact ⟨.accept, .accept hi hr hnext (hlhs.trans hstart), rfl⟩
    | reduce hj hr' hnext' hlhs hx hcolumn =>
        obtain ⟨r, ⟨i, hi, hr, hnext⟩, rfl⟩ :=
          (h.completes_iff hst hmatch).mp ⟨_, hj, hr', hnext'⟩
        rw [hstart] at hlhs
        rw [h.follow] at hx
        rw [hterminals] at hcolumn
        exact ⟨.reduce r.id, .reduce hi hr hnext hlhs hx hcolumn, rfl⟩
  · rintro ⟨a, ha, rfl⟩
    cases ha with
    | shift hx hm =>
        exact .shift (hterminals ▸ hx) ((hmatch.transitions _ _).mpr ⟨_, hm, rfl⟩)
    | @accept i r hi hr hnext hlhs =>
        obtain ⟨j, hj, hr', hnext'⟩ :=
          (h.completes_iff hst hmatch).mpr ⟨r, ⟨i, hi, hr, hnext⟩, rfl⟩
        exact .accept hj hr' hnext' (hlhs.trans hstart.symm)
    | @reduce i r _ hi hr hnext hlhs hx hcolumn =>
        obtain ⟨j, hj, hr', hnext'⟩ :=
          (h.completes_iff hst hmatch).mpr ⟨r, ⟨i, hi, hr, hnext⟩, rfl⟩
        rw [← hstart] at hlhs
        rw [← h.follow] at hx
        exact .reduce hj hr' hnext' hlhs hx (hterminals ▸ hcolumn)

/-- Different candidates stay different. -/
theorem candidate_inj (h : Reordered number σ g g' s)
    (hst : (Automaton.build g).states[k]? = some st) (ha : Candidate g st x a)
    (hb : Candidate g st x b) (heq : a.renumbered σ number = b.renumbered σ number) : a = b := by
  have htarget : ∀ {m : Nat}, (x, m) ∈ st.transitions → m < (Automaton.build g).size := by
    intro m hm
    obtain ⟨-, -, st', hst', -⟩ := h.tabular.target hst hm
    exact (List.getElem?_eq_some_iff.mp hst').1
  cases ha with
  | shift _ hm =>
      cases hb with
      | shift _ hn =>
          -- states are not merged, and neither are the numbers of rules
          have hsame : σ _ = σ _ := Int.ofNat.inj (Action.shift.inj heq)
          rw [h.isomorphic.bijOn.injOn (htarget hm) (htarget hn) hsame]
      | accept _ _ _ _ => exact nomatch heq
      | reduce _ _ _ _ _ _ => exact nomatch heq
  | accept _ _ _ _ =>
      cases hb with
      | shift _ _ => exact nomatch heq
      | accept _ _ _ _ => rfl
      | reduce _ _ _ _ _ _ => exact nomatch heq
  | reduce _ hr _ _ _ _ =>
      cases hb with
      | shift _ _ => exact nomatch heq
      | accept _ _ _ _ => exact nomatch heq
      | reduce _ hq _ _ _ _ =>
          rw [h.renumbers.injective _ (Grammar.mem_of_rule? hr) _ (Grammar.mem_of_rule? hq)
            (Action.reduce.inj heq)]

/-- Every state of the renumbered grammar corresponds to one. -/
theorem exists_state (h : Reordered number σ g g' s) {l : Nat}
    (hst' : (Automaton.build g').states[l]? = some st') :
    ∃ k st, σ k = l ∧ (Automaton.build g).states[k]? = some st := by
  obtain ⟨k, hk, rfl⟩ := h.isomorphic.bijOn.surjOn (List.getElem?_eq_some_iff.mp hst').1
  exact ⟨k, _, rfl, List.getElem?_eq_getElem hk⟩

/-- There are conflicts in both tables or in none. -/
theorem conflicts_iff (h : Reordered number σ g g' s) :
    (ofGrammar g').conflicts = [] ↔ (ofGrammar g).conflicts = [] := by
  rw [h.tabular'.conflicts_eq_nil_iff, h.tabular.conflicts_eq_nil_iff]
  constructor
  · intro hunique k st x a b hst ha hb
    obtain ⟨st', hst', -⟩ := h.isomorphic.states k st hst
    refine h.candidate_inj hst ha hb (hunique (σ k) st' x _ _ hst' ?_ ?_)
    · exact (h.candidate_iff hst hst').mpr ⟨a, ha, rfl⟩
    · exact (h.candidate_iff hst hst').mpr ⟨b, hb, rfl⟩
  · intro hunique l st' x a' b' hst' ha' hb'
    obtain ⟨k, st, rfl, hst⟩ := h.exists_state hst'
    obtain ⟨a, ha, rfl⟩ := (h.candidate_iff hst hst').mp ha'
    obtain ⟨b, hb, rfl⟩ := (h.candidate_iff hst hst').mp hb'
    rw [hunique k st x a b hst ha hb]

/-- Without conflicts every action is carried over with its state and its rule
    renumbered. -/
theorem action?_eq (h : Reordered number σ g g' s) (hnil : (ofGrammar g).conflicts = [])
    (hst : (Automaton.build g).states[k]? = some st) (x : Symbol) :
    (ofGrammar g').action? (σ k) x =
      ((ofGrammar g).action? k x).map (Action.renumbered σ number) := by
  obtain ⟨st', hst', -⟩ := h.isomorphic.states k st hst
  refine Option.ext fun b => ?_
  rw [h.tabular'.action?_iff_candidate (h.conflicts_iff.mpr hnil) hst', h.candidate_iff hst hst',
    Option.map_eq_some_iff]
  simp only [h.tabular.action?_iff_candidate hnil hst]

/-- Every goto is carried over with its state renumbered. -/
theorem goto?_eq (h : Reordered number σ g g' s)
    (hst : (Automaton.build g).states[k]? = some st) (x : Symbol) :
    (ofGrammar g').goto? (σ k) x = ((ofGrammar g).goto? k x).map fun l => (σ l.toNat : Int) := by
  obtain ⟨st', hst', hmatch⟩ := h.isomorphic.states k st hst
  have hgoto : st'.goto? x = (st.goto? x).map σ := by
    refine Option.ext fun l => ?_
    rw [h.tabular'.state_goto?_iff hst', hmatch.transitions, Option.map_eq_some_iff]
    simp only [h.tabular.state_goto?_iff hst]
  have hleft : (ofGrammar g').goto? (σ k) x = gotoAmong g' st'.transitions x := by
    rw [h.tabular'.goto?_eq, show (Automaton.build g').state? (σ k) = some st' from hst',
      Option.bind_some]
  have hright : (ofGrammar g).goto? k x = gotoAmong g st.transitions x := by
    rw [h.tabular.goto?_eq, show (Automaton.build g).state? k = some st from hst, Option.bind_some]
  have hterminal : g'.isTerminal x = g.isTerminal x := by
    rw [Grammar.isTerminal, Grammar.isTerminal, h.renumbers.terminals]
  rw [hleft, hright, gotoAmong, gotoAmong, hterminal]
  by_cases hx : g.isTerminal x = true
  · rw [if_pos hx, if_pos hx]
    rfl
  · rw [if_neg hx, if_neg hx]
    show (st'.goto? x).map Int.ofNat = ((st.goto? x).map Int.ofNat).map _
    rw [hgoto, Option.map_map, Option.map_map]
    rfl

/-- Without conflicts the tables correspond cell by cell. -/
theorem corresponds (h : Reordered number σ g g' s) (hnil : (ofGrammar g).conflicts = []) :
    Corresponds number σ (ofGrammar g) (ofGrammar g') where
  size := by
    rw [h.tabular'.drawn.size, h.tabular.drawn.size, h.isomorphic.size_eq]
  action := by
    intro k hk x
    rw [h.tabular.drawn.size] at hk
    exact h.action?_eq hnil (List.getElem?_eq_getElem hk) x
  goto := by
    intro k hk x
    rw [h.tabular.drawn.size] at hk
    exact h.goto?_eq (List.getElem?_eq_getElem hk) x

end Reordered

end Table

end ShiftReduce
