import ShiftReduce.Proofs.Table.Attempts

/-! # Table entries — winners in the cells, losers among the conflicts

    The states are entered one after the other, each into a row of its own.
    Therefore the tables are exactly what `winner` and `losers` say:

    * the ACTION table has the winners (`Tabular.action?_eq`);
    * the GOTO table has the moves on nonterminals (`Tabular.goto?_eq`);
    * the conflicts are those of the losing attempts (`Tabular.conflicts_eq`).

    Every entry is a candidate of its state, and without conflicts every
    candidate is an entry. -/

namespace ShiftReduce

namespace Table

/-! ## The finished tables -/

/-- Tables that have the rows of some states, numbered from zero, and nothing
    else. -/
structure Drawn (g : Grammar) (states : List Automaton.State) (t : Table) : Prop
    extends Ruled g t where
  action : ∀ (l : Int) (x : Symbol),
    t.action? l x = ((Automaton.mk g states).state? l).bind fun st => winner g st x
  goto : ∀ (l : Int) (x : Symbol),
    t.goto? l x = ((Automaton.mk g states).state? l).bind fun st => gotoAmong g st.transitions x
  conflicts : t.conflicts = states.flatMap (losers g)

/-- One more state comes behind the others. -/
theorem state?_snoc (g : Grammar) (states : List Automaton.State) (st : Automaton.State) (l : Int) :
    (Automaton.mk g (states ++ [st])).state? l
      = if l = states.length then some st else (Automaton.mk g states).state? l := by
  cases l with
  | negSucc n => rfl
  | ofNat n =>
      show (states ++ [st])[n]? = if (n : Int) = states.length then some st else states[n]?
      by_cases hn : n = states.length
      · rw [hn, List.getElem?_concat_length, if_pos rfl]
      · rw [if_neg (by omega)]
        by_cases hlt : n < states.length
        · rw [List.getElem?_append_left hlt]
        · rw [List.getElem?_eq_none (by simp; omega), List.getElem?_eq_none (by omega)]

theorem state_of_mem_losers {g : Grammar} {st : Automaton.State} {d : Conflict}
    (hd : d ∈ losers g st) : d.state = st.id := by
  obtain ⟨e, -, he⟩ := List.mem_filterMap.mp hd
  obtain ⟨w, -, -, rfl⟩ := lost?_eq_some_iff.mp he
  rfl

/-- The conflicts so far are in the rows so far. -/
theorem Drawn.state_lt {g : Grammar} {states : List Automaton.State} {t : Table}
    (ht : Drawn g states t) (hids : ∀ (j : Nat) (st : Automaton.State), states[j]? = some st → st.id = j)
    {d : Conflict} (hd : d ∈ t.conflicts) : d.state < states.length := by
  rw [ht.conflicts] at hd
  obtain ⟨st, hst, hd⟩ := List.mem_flatMap.mp hd
  obtain ⟨j, hj⟩ := List.mem_iff_getElem?.mp hst
  obtain ⟨hlt, -⟩ := List.getElem?_eq_some_iff.mp hj
  rw [state_of_mem_losers hd, hids j st hj]
  exact Int.ofNat_lt.mpr hlt

namespace Tabular

variable {g : Grammar} {s : Symbol}

/-- The states are entered one by one, each into its own row. -/
theorem drawn_of_prefix (h : Tabular g s) {done : List Automaton.State} :
    done <+: (Automaton.build g).states →
      Drawn g done (done.foldl (enterState (Analysis.ofGrammar g))
        (blank (Automaton.build g).size (g.terminals ++ [Symbol.endMarker])
          (g.nonterminals.filter fun n => n != g.start))) := by
  -- one state more at a time, in the order in which the rows are filled
  induction done using List.reverseRecOn with
  | nil =>
      intro _
      refine ⟨⟨shaped_blank _ _ _, rfl, rfl, rfl⟩, ?_, ?_, rfl⟩
      · intro l x
        rw [List.foldl_nil, action?_blank]
        cases l <;> rfl
      · intro l x
        rw [List.foldl_nil, goto?_blank]
        cases l <;> rfl
  | append_singleton done st ih =>
      rintro ⟨behind, hsplit⟩
      have hst : ∀ (j : Nat) (st' : Automaton.State), (done ++ [st])[j]? = some st' →
          (Automaton.build g).states[j]? = some st' := by
        intro j st' hj
        rw [← hsplit, List.getElem?_append_left (List.getElem?_eq_some_iff.mp hj).1]
        exact hj
      have hdrawn := ih ⟨[st] ++ behind, by rw [← hsplit, List.append_assoc]⟩
      -- the row of the new state is empty until now
      have hnone : (Automaton.mk g done).state? (done.length : Int) = none :=
        List.getElem?_eq_none (Nat.le_refl _)
      have hfills := h.enterState_fills (hst done.length st List.getElem?_concat_length)
        hdrawn.toRuled (fun x => by rw [hdrawn.action, hnone]; rfl)
        (fun x => by rw [hdrawn.goto, hnone]; rfl) (fun d hd => Int.ne_of_lt (hdrawn.state_lt (by
          intro j st' hj
          refine (Automaton.getElem?_states.mp (hst j st' ?_)).1
          rw [List.getElem?_append_left (List.getElem?_eq_some_iff.mp hj).1]
          exact hj) hd))
      rw [List.foldl_concat]
      refine ⟨hfills.ruled hdrawn.toRuled, ?_, ?_, ?_⟩
      · intro l x
        rw [hfills.action, state?_snoc]
        split
        · rfl
        · exact hdrawn.action l x
      · intro l x
        rw [hfills.goto, state?_snoc]
        split
        · rfl
        · exact hdrawn.goto l x
      · rw [hfills.conflicts, hdrawn.conflicts, List.flatMap_append, List.flatMap_singleton]

theorem drawn (h : Tabular g s) : Drawn g (Automaton.build g).states (ofGrammar g) :=
  h.drawn_of_prefix List.prefix_rfl

/-- The ACTION table has the winners of all states. -/
theorem action?_eq (h : Tabular g s) (l : Int) (x : Symbol) :
    (ofGrammar g).action? l x
      = ((Automaton.build g).state? l).bind fun st => winner g st x :=
  h.drawn.action l x

/-- The GOTO table has the moves of all states. -/
theorem goto?_eq (h : Tabular g s) (l : Int) (x : Symbol) :
    (ofGrammar g).goto? l x
      = ((Automaton.build g).state? l).bind fun st => gotoAmong g st.transitions x :=
  h.drawn.goto l x

/-- The conflicts are the losers of all states, state by state. -/
theorem conflicts_eq (h : Tabular g s) :
    (ofGrammar g).conflicts = (Automaton.build g).states.flatMap (losers g) :=
  h.drawn.conflicts

end Tabular

/-! ## Candidates -/

/-- What can be entered in the row of a state. -/
inductive Candidate (g : Grammar) (st : Automaton.State) : Symbol → Action → Prop where
  | shift {x : Symbol} {k : Nat} (hx : x ∈ g.terminals) (hk : (x, k) ∈ st.transitions) :
      Candidate g st x (.shift k)
  | accept {i : Item} {r : Production} (hi : i ∈ st.items) (hr : g.rule? i.rule = some r)
      (hnext : i.next? g = none) (hlhs : r.lhs = g.start) :
      Candidate g st Symbol.endMarker .accept
  | reduce {i : Item} {r : Production} {x : Symbol} (hi : i ∈ st.items)
      (hr : g.rule? i.rule = some r) (hnext : i.next? g = none) (hlhs : r.lhs ≠ g.start)
      (hfollow : x ∈ (Analysis.ofGrammar g).follow r.lhs)
      (hx : x ∈ g.terminals ++ [Symbol.endMarker]) :
      Candidate g st x (.reduce r.id)

theorem Candidate.column {g : Grammar} {st : Automaton.State} {x : Symbol} {a : Action}
    (h : Candidate g st x a) : x ∈ g.terminals ++ [Symbol.endMarker] := by
  cases h with
  | shift hx => exact List.mem_append_left _ hx
  | accept => simp
  | reduce _ _ _ _ _ hx => exact hx

namespace Tabular

variable {g : Grammar} {s : Symbol}

/-- The attempts of a state are its candidates but for the shifts, which are written
    with the transitions. -/
theorem mem_attempts_iff (h : Tabular g s) {st : Automaton.State} {x : Symbol} {a : Action} :
    (x, a) ∈ attempts g st ↔ Candidate g st x a ∧ ∀ n, a ≠ .shift n := by
  constructor
  · intro hmem
    obtain ⟨i, hi, he⟩ := List.mem_flatMap.mp hmem
    have hx := (h.attempt_column he).1
    obtain ⟨r, hr, hnext, ⟨hlhs, rfl, rfl⟩ | ⟨hlhs, hfollow, rfl⟩⟩ := mem_attemptsOf.mp he
    · exact ⟨.accept (mem_sortBy.mp hi) hr hnext hlhs, nofun⟩
    · exact ⟨.reduce (mem_sortBy.mp hi) hr hnext hlhs hfollow hx, nofun⟩
  · rintro ⟨hcand, hnot⟩
    refine List.mem_flatMap.mpr ?_
    cases hcand with
    | shift hx hk => exact absurd rfl (hnot _)
    | accept hi hr hnext hlhs =>
        exact ⟨_, mem_sortBy.mpr hi, mem_attemptsOf.mpr ⟨_, hr, hnext, Or.inl ⟨hlhs, rfl, rfl⟩⟩⟩
    | reduce hi hr hnext hlhs hfollow hx =>
        exact ⟨_, mem_sortBy.mpr hi, mem_attemptsOf.mpr ⟨_, hr, hnext, Or.inr ⟨hlhs, hfollow, rfl⟩⟩⟩

/-- The lookup of a move finds the transition of the state. -/
theorem state_goto?_iff (h : Tabular g s) {k : Nat} {st : Automaton.State}
    (hst : (Automaton.build g).states[k]? = some st) {x : Symbol} {n : Nat} :
    st.goto? x = some n ↔ (x, n) ∈ st.transitions := by
  have hgoto : (Automaton.build g).goto? k x = st.goto? x := by
    rw [Automaton.goto?, hst]
    rfl
  rw [← hgoto, h.goto?_eq_some_iff]
  constructor
  · rintro ⟨st', hst', he⟩
    obtain rfl : st = st' := Option.some.inj (hst.symm.trans hst')
    exact he
  · intro he
    exact ⟨st, hst, he⟩

/-- The shift among the transitions of a state is its candidate for shifting. -/
theorem shiftAmong_eq_some_iff (h : Tabular g s) {k : Nat} {st : Automaton.State}
    (hst : (Automaton.build g).states[k]? = some st) {x : Symbol} {a : Action} :
    shiftAmong g st.transitions x = some a ↔ ∃ n : Nat, a = .shift n ∧ Candidate g st x a := by
  rw [shiftAmong]
  constructor
  · intro hshift
    split at hshift
    · rename_i hterm
      obtain ⟨n, hn, rfl⟩ := Option.map_eq_some_iff.mp hshift
      exact ⟨n, rfl, .shift (Grammar.isTerminal_iff.mp hterm) ((h.state_goto?_iff hst).mp hn)⟩
    · cases hshift
  · rintro ⟨n, rfl, hcand⟩
    cases hcand with
    | shift hx he =>
        rw [if_pos (Grammar.isTerminal_iff.mpr hx)]
        exact Option.map_eq_some_iff.mpr ⟨n, (h.state_goto?_iff hst).mpr he, rfl⟩

/-- A winner is a candidate. -/
theorem candidate_of_winner (h : Tabular g s) {k : Nat} {st : Automaton.State}
    (hst : (Automaton.build g).states[k]? = some st) {x : Symbol} {a : Action}
    (ha : winner g st x = some a) : Candidate g st x a := by
  rcases Option.or_eq_some_iff.mp ha with hshift | ⟨-, hfirst⟩
  · obtain ⟨n, -, hcand⟩ := (h.shiftAmong_eq_some_iff hst).mp hshift
    exact hcand
  · obtain ⟨before, behind, hsplit, -⟩ := List.lookup_eq_some_iff.mp hfirst
    have hmem : (x, a) ∈ attempts g st := by
      rw [hsplit]
      simp
    exact (h.mem_attempts_iff.mp hmem).1

/-- Where there is a candidate there is a winner, and it is the candidate or the
    candidate is reported. -/
theorem exists_winner (h : Tabular g s) {k : Nat} {st : Automaton.State}
    (hst : (Automaton.build g).states[k]? = some st) {x : Symbol} {a : Action}
    (ha : Candidate g st x a) :
    ∃ w, winner g st x = some w ∧ (w = a ∨ Conflict.of k x w a ∈ losers g st) := by
  have hid : st.id = k := (Automaton.getElem?_states.mp hst).1
  -- shifts are written first; everything else is an attempt, and the first one stays
  by_cases hshift : ∃ n : Nat, a = .shift n
  · obtain ⟨n, rfl⟩ := hshift
    have hfirst := (h.shiftAmong_eq_some_iff hst).mpr ⟨n, rfl, ha⟩
    exact ⟨_, by rw [winner, hfirst]; rfl, Or.inl rfl⟩
  · have hnot : ∀ n, a ≠ .shift n := by
      rintro n rfl
      cases ha with
      | shift hx he => exact hshift ⟨_, rfl⟩
    have hmem := h.mem_attempts_iff.mpr ⟨ha, hnot⟩
    obtain ⟨w, hw⟩ : ∃ w, winner g st x = some w := by
      refine Option.ne_none_iff_exists'.mp ?_
      intro hnone
      rw [winner, Option.or_eq_none_iff] at hnone
      have hlookup := List.lookup_eq_none_iff.mp hnone.2 (x, a) hmem
      simp at hlookup
    refine ⟨w, hw, ?_⟩
    by_cases heq : w = a
    · exact Or.inl heq
    · rw [← hid]
      exact Or.inr (List.mem_filterMap.mpr
        ⟨(x, a), hmem, lost?_eq_some_iff.mpr ⟨w, hw, heq, rfl⟩⟩)

/-- Every entry of the ACTION table is a candidate of its state. -/
theorem candidate_of_action? (h : Tabular g s) {k : Int} {x : Symbol} {a : Action}
    (ha : (ofGrammar g).action? k x = some a) :
    ∃ (n : Nat) (st : Automaton.State), k = n ∧ (Automaton.build g).states[n]? = some st ∧
      Candidate g st x a := by
  rw [h.action?_eq] at ha
  obtain ⟨st, hst, hwinner⟩ := Option.bind_eq_some_iff.mp ha
  cases k with
  | negSucc n => exact nomatch hst
  | ofNat n => exact ⟨n, st, rfl, hst, h.candidate_of_winner hst hwinner⟩

/-- If no conflicts were reported, every candidate is an entry. -/
theorem action?_of_candidate (h : Tabular g s) (hc : (ofGrammar g).conflicts = []) {k : Nat}
    {st : Automaton.State} (hst : (Automaton.build g).states[k]? = some st) {x : Symbol} {a : Action}
    (ha : Candidate g st x a) : (ofGrammar g).action? k x = some a := by
  obtain ⟨w, hw, hlost⟩ := h.exists_winner hst ha
  have hentry : (ofGrammar g).action? k x = some w := by
    rw [h.action?_eq, show (Automaton.build g).state? k = some st from hst, Option.bind_some, hw]
  rcases hlost with rfl | hlost
  · exact hentry
  · rw [h.conflicts_eq] at hc
    have hnil := List.flatMap_eq_nil_iff.mp hc st (List.mem_of_getElem? hst)
    rw [hnil] at hlost
    exact nomatch hlost

/-- The GOTO table has the transitions on nonterminals. -/
theorem goto?_nonterminal (h : Tabular g s) {x : Symbol} (hx : x ∈ g.nonterminals) (k : Nat) :
    (ofGrammar g).goto? k x = ((Automaton.build g).goto? k x).map Int.ofNat := by
  have hterm : ¬ g.isTerminal x = true := by
    intro hterm
    exact h.disjoint x (Grammar.isTerminal_iff.mp hterm) hx
  have hrow : ∀ st : Automaton.State,
      gotoAmong g st.transitions x = (st.goto? x).map Int.ofNat := by
    intro st
    rw [gotoAmong, if_neg hterm]
    rfl
  rw [h.goto?_eq, Automaton.goto?, Option.map_bind]
  exact congrArg _ (funext hrow)

/-- The goto table holds exactly the transitions on nonterminals. -/
theorem goto?_iff (h : Tabular g s) {k : Nat} {x : Symbol} (hx : x ∈ g.nonterminals) {l : Int} :
    (ofGrammar g).goto? k x = some l ↔
      ∃ n : Nat, l = n ∧ (Automaton.build g).goto? k x = some n := by
  rw [h.goto?_nonterminal hx, Option.map_eq_some_iff]
  constructor
  · rintro ⟨n, hn, rfl⟩
    exact ⟨n, rfl, hn⟩
  · rintro ⟨n, rfl, hn⟩
    exact ⟨n, hn, rfl⟩

end Tabular

end Table

end ShiftReduce
