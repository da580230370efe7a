import ShiftReduce.Proofs.Parser.Outcome
import ShiftReduce.Proofs.Text.ByteOrder

/-! # Contents of the tables — who prevails in a cell, and what is reported

    The candidates of a cell are read off the automaton: a shift along the
    transition, acceptance with the completed item of rule 0, reductions by
    completed items before what can follow.  The shift prevails over acceptance,
    acceptance over reductions, and the reduction by the smallest rule over all
    others.  The ACTION table has the candidate that prevails, and the conflicts
    are the records of all others, ordered by state, rule and the bytes of the
    symbol (`Compiled.table_exact`). -/

namespace ShiftReduce

/-- The candidate that prevails over all others. -/
inductive Action.Prevails (candidate : Action → Prop) : Action → Prop where
  | shift {n : Int} (h : candidate (.shift n)) : Prevails candidate (.shift n)
  | accept (h : candidate .accept) (hshift : ∀ n, ¬ candidate (.shift n)) :
      Prevails candidate .accept
  | reduce {p : Int} (h : candidate (.reduce p)) (hshift : ∀ n, ¬ candidate (.shift n))
      (haccept : ¬ candidate .accept) (hleast : ∀ q, candidate (.reduce q) → p ≤ q) :
      Prevails candidate (.reduce p)

/-- Only one candidate can prevail, if there is only one shift. -/
theorem Action.Prevails.unique {candidate : Action → Prop} {a b : Action}
    (hshift : ∀ m n, candidate (.shift m) → candidate (.shift n) → m = n)
    (ha : Prevails candidate a) (hb : Prevails candidate b) : a = b := by
  cases ha with
  | shift h =>
      cases hb with
      | shift h' => rw [hshift _ _ h h']
      | accept _ hnone => exact absurd h (hnone _)
      | reduce _ hnone => exact absurd h (hnone _)
  | accept h hnone =>
      cases hb with
      | shift h' => exact absurd h' (hnone _)
      | accept => rfl
      | reduce _ _ hnot => exact absurd h hnot
  | reduce h hnone hnot hleast =>
      cases hb with
      | shift h' => exact absurd h' (hnone _)
      | accept h' => exact absurd h' hnot
      | reduce h' _ _ hleast' => rw [Int.le_antisymm (hleast _ h') (hleast' _ h)]

/-- Conflicts are ordered by state, then by the rule of the candidate, then by the
    bytes of the symbol.  The order is strict, so what is ordered has no conflict
    twice. -/
def Conflict.Before (d d' : Conflict) : Prop :=
  d.state < d'.state ∨ d.state = d'.state ∧
    (d.candidate.target < d'.candidate.target ∨ d.candidate.target = d'.candidate.target ∧
      Bytes.ofText d.symbol < Bytes.ofText d'.symbol)

/-- The kind of a conflict is that of the action it was found against: a shift, or
    not. -/
theorem ConflictKind.eq_ofExisting_iff {kind : ConflictKind} {w : Action} :
    kind = ofExisting w ↔ (kind = .shiftReduce ↔ ∃ n, w = .shift n) := by
  cases kind <;> cases w <;> simp [ofExisting]

namespace Table

namespace Tabular

variable {g : Grammar} {s : Symbol} {k : Nat} {st : Automaton.State} {x : Symbol} {a : Action}

/-! ## Winners prevail -/

/-- A cell stays empty exactly when the state has no candidate for the symbol. -/
theorem winner_eq_none_iff (h : Tabular g s) (hst : (Automaton.build g).states[k]? = some st) :
    winner g st x = none ↔ ∀ a, ¬ Candidate g st x a := by
  constructor
  · intro hnone a ha
    obtain ⟨w, hw, -⟩ := h.exists_winner hst ha
    exact nomatch hnone.symm.trans hw
  · intro hnone
    refine Option.eq_none_iff_forall_ne_some.mpr ?_
    intro a ha
    exact hnone a (h.candidate_of_winner hst ha)

/-- The first attempt at a cell is made in the name of the smallest rule. -/
theorem target_le_of_lookup (h : Tabular g s) (hst : (Automaton.build g).states[k]? = some st)
    (ha : (attempts g st).lookup x = some a) {b : Action} (hb : (x, b) ∈ attempts g st) :
    b = a ∨ a.target < b.target := by
  obtain ⟨before, behind, hsplit, hnot⟩ := List.lookup_eq_some_iff.mp ha
  have hordered := h.attempts_ordered hst
  rw [hsplit] at hb hordered
  rcases List.mem_append.mp hb with hb | hb
  · exact absurd (hnot _ hb) (by simp)
  · rcases List.mem_cons.mp hb with hb | hb
    · exact Or.inl (Prod.mk.inj hb).2
    · rcases (List.pairwise_cons.mp (List.pairwise_append.mp hordered).2.1).1 _ hb with hlt | ⟨-, hlt⟩
      · exact Or.inr hlt
      · exact absurd hlt (String.lt_irrefl x)

theorem prevails_of_winner (h : Tabular g s) (hst : (Automaton.build g).states[k]? = some st)
    (ha : winner g st x = some a) : Action.Prevails (Candidate g st x) a := by
  have hcand := h.candidate_of_winner hst ha
  rcases Option.or_eq_some_iff.mp ha with hshift | ⟨hnone, hfirst⟩
  · obtain ⟨n, rfl, -⟩ := (h.shiftAmong_eq_some_iff hst).mp hshift
    exact .shift hcand
  · have hnoshift : ∀ n, ¬ Candidate g st x (.shift n) := by
      intro n hn
      cases hn with
      | shift hx hk =>
          have hsome := (h.shiftAmong_eq_some_iff hst).mpr ⟨_, rfl, .shift hx hk⟩
          exact nomatch hnone.symm.trans hsome
    have hattempt : ∀ b, Candidate g st x b → b = a ∨ a.target < b.target := by
      intro b hb
      refine h.target_le_of_lookup hst hfirst (h.mem_attempts_iff.mpr ⟨hb, ?_⟩)
      rintro n rfl
      exact hnoshift n hb
    cases a with
    | shift n => exact absurd hcand (hnoshift n)
    | accept => exact .accept hcand hnoshift
    | reduce p =>
        refine .reduce hcand hnoshift ?_ ?_
        · -- only a rule with a negative number would come before acceptance
          intro haccept
          have hlt : p < 0 := (hattempt _ haccept).resolve_left nofun
          cases hcand with
          | reduce hi hr hnext hlhs hfollow hx =>
              have hid := h.id_range (Grammar.mem_of_rule? hr)
              omega
        · intro q hq
          rcases hattempt _ hq with heq | hlt
          · rw [Action.reduce.inj heq]
          · exact Int.le_of_lt hlt

/-- The winner is the candidate that prevails. -/
theorem winner_eq_some_iff (h : Tabular g s) (hst : (Automaton.build g).states[k]? = some st) :
    winner g st x = some a ↔ Action.Prevails (Candidate g st x) a := by
  constructor
  · exact h.prevails_of_winner hst
  · intro ha
    have hcand : Candidate g st x a := by
      cases ha with
      | shift h => exact h
      | accept h => exact h
      | reduce h => exact h
    obtain ⟨w, hw, -⟩ := h.exists_winner hst hcand
    have hshift : ∀ m n, Candidate g st x (.shift m) → Candidate g st x (.shift n) → m = n := by
      intro m n hm hn
      cases hm with
      | shift _ hm =>
          cases hn with
          | shift _ hn => rw [h.transition_unique hst hm hn]
    rw [hw, (h.prevails_of_winner hst hw).unique hshift ha]

/-- Where acceptance is a candidate there is no shift. -/
theorem not_shift_of_accept (h : Tabular g s) {n : Int} (ha : Candidate g st x .accept) :
    ¬ Candidate g st x (.shift n) := by
  intro hshift
  cases ha with
  | accept =>
      cases hshift with
      | shift hx _ => exact (h.ne_of_mem (Or.inl hx)).2.1 rfl

/-! ## Losers are reported -/

/-- What a row reports are the candidates that did not prevail, each against the one
    that did. -/
theorem mem_losers_iff (h : Tabular g s) (hst : (Automaton.build g).states[k]? = some st)
    {d : Conflict} :
    d ∈ losers g st ↔ ∃ w, winner g st d.symbol = some w ∧ Candidate g st d.symbol d.candidate ∧
      d.candidate ≠ w ∧ d = Conflict.of k d.symbol w d.candidate := by
  constructor
  · intro hd
    obtain ⟨⟨x, a⟩, hmem, he⟩ := List.mem_filterMap.mp hd
    obtain ⟨w, hw, hne, rfl⟩ := lost?_eq_some_iff.mp he
    refine ⟨w, hw, (h.mem_attempts_iff.mp hmem).1, hne.symm, ?_⟩
    rw [(Automaton.getElem?_states.mp hst).1]
    rfl
  · rintro ⟨w, hw, hcand, hne, hd⟩
    obtain ⟨w', hw', hlost⟩ := h.exists_winner hst hcand
    obtain rfl : w = w' := Option.some.inj (hw.symm.trans hw')
    rw [hd]
    exact hlost.resolve_left hne.symm

/-- The losers of a state come in the order of their attempts. -/
theorem losers_ordered (h : Tabular g s) (hst : (Automaton.build g).states[k]? = some st) :
    (losers g st).Pairwise Conflict.Before := by
  refine List.pairwise_filterMap.mpr ((h.attempts_ordered hst).imp ?_)
  intro e e' hearlier d hd d' hd'
  obtain ⟨w, -, -, rfl⟩ := lost?_eq_some_iff.mp hd
  obtain ⟨w', -, -, rfl⟩ := lost?_eq_some_iff.mp hd'
  refine Or.inr ⟨rfl, ?_⟩
  rcases hearlier with hlt | ⟨heq, hlt⟩
  · exact Or.inl hlt
  · exact Or.inr ⟨heq, Bytes.ofText_lt hlt⟩

/-- The list of conflicts is in strictly ascending order. -/
theorem conflicts_ordered (h : Tabular g s) : (ofGrammar g).conflicts.Pairwise Conflict.Before := by
  rw [h.conflicts_eq]
  refine List.pairwise_flatMap.mpr ⟨?_, ?_⟩
  · intro st hmem
    obtain ⟨k, hk⟩ := List.mem_iff_getElem?.mp hmem
    exact h.losers_ordered hk
  · refine List.pairwise_iff_getElem.mpr ?_
    intro i j hi hj hij d hd d' hd'
    refine Or.inl ?_
    rw [state_of_mem_losers hd, state_of_mem_losers hd',
      (Automaton.getElem?_states.mp (List.getElem?_eq_getElem hi)).1,
      (Automaton.getElem?_states.mp (List.getElem?_eq_getElem hj)).1]
    exact Int.ofNat_lt.mpr hij

end Tabular

end Table

/-! ## The tables of a compilation -/

namespace Compilation

/-- What can be done in a state before a symbol. -/
inductive Candidate (c : Compilation) (st : Automaton.State) (x : Symbol) : Action → Prop where
  | shift {n : Nat} (hn : st.goto? x = some n) : Candidate c st x (.shift n)
  | accept (hx : x = Symbol.endMarker) (hi : Item.accepting ∈ st.items) : Candidate c st x .accept
  | reduce {p : Int} {r : Production} (hp : 0 < p) (hr : c.grammar.rule? p = some r)
      (hi : ⟨p, r.length⟩ ∈ st.items) (hx : x ∈ c.analysis.follow r.lhs) :
      Candidate c st x (.reduce p)

/-- The columns of the ACTION table. -/
def columns (c : Compilation) : List Symbol :=
  c.grammar.terminals ++ [Symbol.endMarker]

/-- The record of a candidate that does not have its cell. -/
structure Lost (c : Compilation) (k : Nat) (st : Automaton.State) (d : Conflict) : Prop where
  state : d.state = k
  column : d.symbol ∈ c.columns
  existing : c.table.action? k d.symbol = some d.existing
  candidate : c.Candidate st d.symbol d.candidate
  candidate_ne : d.candidate ≠ d.existing
  kind : d.kind = .shiftReduce ↔ ∃ n, d.existing = .shift n

/-- Tables with what prevails among the candidates, and with one conflict for
    each of the others.  Acceptance is never the other one, so it has not
    overwritten anything. -/
structure Exact (c : Compilation) : Prop where
  action_none : ∀ (k : Nat) (st : Automaton.State), c.automaton.states[k]? = some st →
    ∀ x ∈ c.columns, (c.table.action? k x = none ↔ ∀ a, ¬ c.Candidate st x a)
  action_some : ∀ (k : Nat) (st : Automaton.State), c.automaton.states[k]? = some st →
    ∀ x ∈ c.columns, ∀ a, c.table.action? k x = some a ↔ Action.Prevails (c.Candidate st x) a
  goto : ∀ (k : Nat) (st : Automaton.State), c.automaton.states[k]? = some st →
    ∀ x ∈ c.grammar.nonterminals, c.table.goto? k x = (st.goto? x).map Int.ofNat
  conflicts_ordered : c.table.conflicts.Pairwise Conflict.Before
  mem_conflicts : ∀ d, d ∈ c.table.conflicts ↔
    ∃ (k : Nat) (st : Automaton.State), c.automaton.states[k]? = some st ∧ c.Lost k st d
  accept_unopposed : ∀ d ∈ c.table.conflicts, d.candidate ≠ .accept
  hasConflicts : c.table.hasConflicts = true ↔
    ∃ (k : Nat) (st : Automaton.State) (x : Symbol) (a b : Action),
      c.automaton.states[k]? = some st ∧ x ∈ c.columns ∧ c.Candidate st x a ∧ c.Candidate st x b ∧
        a ≠ b

end Compilation

namespace Compiled

variable {g : Grammar} {c : Compilation}

/-- The states of a compilation are those its augmented grammar builds. -/
theorem built (h : Compiled g c) {k : Nat} {st : Automaton.State}
    (hst : c.automaton.states[k]? = some st) :
    (Automaton.build g.augmented).states[k]? = some st := by
  rw [← h.automaton_eq]
  exact hst

/-- The candidates of a compilation are those of its table. -/
theorem candidate_iff (h : Compiled g c) {k : Nat} {st : Automaton.State}
    (hst : c.automaton.states[k]? = some st) {x : Symbol} (hx : x ∈ c.columns) {a : Action} :
    c.Candidate st x a ↔ Table.Candidate g.augmented st x a := by
  have ht := h.tabular
  obtain rfl := h.eq_ofAnalysis
  constructor
  · intro ha
    cases ha with
    | @shift n hn =>
        have hmove : (x, n) ∈ st.transitions := (ht.state_goto?_iff hst).mp hn
        -- there is a column for the end marker, but no edge over it
        rcases List.mem_append.mp hx with hterm | hend
        · exact .shift hterm hmove
        · obtain ⟨r, hr, hbody⟩ := ht.exists_body_of_move hst hmove
          have hne := (ht.ne_of_mem (ht.body_mem r hr x hbody)).2.1
          exact absurd (List.mem_singleton.mp hend) hne
    | accept hend hi =>
        rw [hend]
        exact .accept hi ht.rule?_zero (Item.next?_of_rule ht.rule?_zero 1) rfl
    | @reduce p r hp hrule hi hfollow =>
        have hr : g.augmented.rule? p = some r := hrule
        have hnext : Item.next? g.augmented ⟨p, r.length⟩ = none := by
          rw [Item.next?_of_rule hr]
          exact List.getElem?_eq_none (Nat.le_refl _)
        rw [← ht.id_of_rule? hr]
        exact .reduce hi hr hnext ((ht.lhs_ne_start_iff hr).mpr hp) hfollow hx
  · intro ha
    cases ha with
    | shift _ hmove => exact .shift ((ht.state_goto?_iff hst).mpr hmove)
    | accept hi hr hnext hlhs =>
        refine .accept rfl ?_
        rw [← ht.eq_accepting (ht.known hst hi).1 hr hnext hlhs]
        exact hi
    | @reduce i r _ hi hr hnext hlhs hfollow _ =>
        have hdot := Table.dot_of_completed (ht.known hst hi).1 hr hnext
        rw [ht.id_of_rule? hr]
        refine .reduce ((ht.lhs_ne_start_iff hr).mp hlhs) hr ?_ hfollow
        rw [← hdot]
        exact hi

/-- The ACTION table has the winners. -/
theorem action?_eq (h : Compiled g c) {k : Nat} {st : Automaton.State}
    (hst : c.automaton.states[k]? = some st) (x : Symbol) :
    c.table.action? k x = Table.winner g.augmented st x := by
  rw [h.table_eq, h.tabular.action?_eq]
  show ((Automaton.build g.augmented).states[k]?).bind _ = _
  rw [h.built hst, Option.bind_some]

/-- The records of losing candidates are the losers. -/
theorem lost_iff (h : Compiled g c) {k : Nat} {st : Automaton.State}
    (hst : c.automaton.states[k]? = some st) {d : Conflict} :
    c.Lost k st d ↔ d ∈ Table.losers g.augmented st := by
  -- both say: some other candidate stands in the cell
  rw [h.tabular.mem_losers_iff (h.built hst), ← h.action?_eq hst]
  constructor
  · intro hd
    refine ⟨d.existing, hd.existing, (h.candidate_iff hst hd.column).mp hd.candidate,
      hd.candidate_ne, ?_⟩
    rw [Conflict.of, ← hd.state, ← ConflictKind.eq_ofExisting_iff.mpr hd.kind]
  · rintro ⟨w, hw, hcand, hne, hd⟩
    have hcolumn : d.symbol ∈ c.columns := by
      rw [Compilation.columns, h.grammar_eq]
      exact hcand.column
    have hexisting : d.existing = w := by
      rw [hd]
      rfl
    refine ⟨?_, hcolumn, ?_, (h.candidate_iff hst hcolumn).mpr hcand, ?_, ?_⟩
    · rw [hd]
      rfl
    · rw [hw, hexisting]
    · rw [hexisting]
      exact hne
    · rw [hexisting, ← ConflictKind.eq_ofExisting_iff, hd]
      rfl

/-- The conflicts of the table are those of its states, none left out and none
    invented. -/
theorem mem_conflicts_iff (h : Compiled g c) {d : Conflict} :
    d ∈ c.table.conflicts ↔
      ∃ (k : Nat) (st : Automaton.State), c.automaton.states[k]? = some st ∧ c.Lost k st d := by
  rw [h.table_eq, h.tabular.conflicts_eq, ← h.automaton_eq, List.mem_flatMap]
  constructor
  · rintro ⟨st, hmem, hd⟩
    obtain ⟨k, hst⟩ := List.mem_iff_getElem?.mp hmem
    exact ⟨k, st, hst, (h.lost_iff hst).mpr hd⟩
  · rintro ⟨k, st, hst, hd⟩
    exact ⟨st, List.mem_of_getElem? hst, (h.lost_iff hst).mp hd⟩

/-- There are conflicts if two actions are candidates for a cell. -/
theorem hasConflicts_iff (h : Compiled g c) :
    c.table.hasConflicts = true ↔
      ∃ (k : Nat) (st : Automaton.State) (x : Symbol) (a b : Action),
        c.automaton.states[k]? = some st ∧ x ∈ c.columns ∧ c.Candidate st x a ∧
          c.Candidate st x b ∧ a ≠ b := by
  have hsome : c.table.hasConflicts = true ↔ ∃ d, d ∈ c.table.conflicts := by
    rw [← List.isEmpty_eq_false_iff_exists_mem, Table.hasConflicts, Bool.not_eq_true']
  rw [hsome]
  constructor
  · rintro ⟨d, hd⟩
    obtain ⟨k, st, hst, hlost⟩ := h.mem_conflicts_iff.mp hd
    have hentry := hlost.existing
    rw [h.action?_eq hst] at hentry
    refine ⟨k, st, d.symbol, d.candidate, d.existing, hst, hlost.column, hlost.candidate, ?_,
      hlost.candidate_ne⟩
    exact (h.candidate_iff hst hlost.column).mpr (h.tabular.candidate_of_winner (h.built hst) hentry)
  · rintro ⟨k, st, x, a, b, hst, hx, ha, hb, hne⟩
    obtain ⟨w, hw, ha⟩ := h.tabular.exists_winner (h.built hst) ((h.candidate_iff hst hx).mp ha)
    obtain ⟨w', hw', hb⟩ := h.tabular.exists_winner (h.built hst) ((h.candidate_iff hst hx).mp hb)
    obtain rfl : w = w' := Option.some.inj (hw.symm.trans hw')
    -- at most one of the two has won
    have hlost : ∃ d, d ∈ Table.losers g.augmented st := by
      rcases ha with rfl | ha
      · exact ⟨_, hb.resolve_left hne⟩
      · exact ⟨_, ha⟩
    obtain ⟨d, hd⟩ := hlost
    exact ⟨d, h.mem_conflicts_iff.mpr ⟨k, st, hst, (h.lost_iff hst).mpr hd⟩⟩

/-- Acceptance never meets another action: it comes before the reductions, and the
    end marker is not shifted. -/
theorem accept_unopposed (h : Compiled g c) {d : Conflict} (hd : d ∈ c.table.conflicts) :
    d.candidate ≠ .accept := by
  intro haccept
  obtain ⟨k, st, hst, hlost⟩ := h.mem_conflicts_iff.mp hd
  have hcand := (h.candidate_iff hst hlost.column).mp hlost.candidate
  rw [haccept] at hcand
  have hentry := hlost.existing
  rw [h.action?_eq hst, h.tabular.winner_eq_some_iff (h.built hst)] at hentry
  generalize hw : d.existing = w at hentry
  cases hentry with
  | shift hshift => exact h.tabular.not_shift_of_accept hcand hshift
  | accept => exact hlost.candidate_ne (haccept.trans hw.symm)
  | reduce _ _ hnot => exact hnot hcand

/-- **Exact tables.**  In every cell of the ACTION table is the candidate that
    prevails, if there is one, and the GOTO table has the transitions on
    nonterminals.  The conflicts are the records of all other candidates, one
    for each, ordered by state, rule and the bytes of the symbol.  There are some
    if and only if a cell has two candidates. -/
theorem table_exact (h : Compiled g c) : c.Exact := by
  refine ⟨?_, ?_, ?_, ?_, fun d => h.mem_conflicts_iff, fun d hd => h.accept_unopposed hd,
    h.hasConflicts_iff⟩
  · intro k st hst x hx
    rw [h.action?_eq hst, h.tabular.winner_eq_none_iff (h.built hst)]
    exact forall_congr' fun a => not_congr (h.candidate_iff hst hx).symm
  · intro k st hst x hx a
    have hsame : c.Candidate st x = Table.Candidate g.augmented st x := by
      ext a
      exact h.candidate_iff hst hx
    rw [h.action?_eq hst, h.tabular.winner_eq_some_iff (h.built hst), hsame]
  · intro k st hst x hx
    rw [h.grammar_eq] at hx
    rw [h.table_eq, h.tabular.goto?_nonterminal hx, Automaton.goto?, h.built hst]
    rfl
  · rw [h.table_eq]
    exact h.tabular.conflicts_ordered

end Compiled

/-- A grammar of sums in which a number can be read in two ways. -/
def ambiguousGrammar : Grammar :=
  { name := "ambiguous", start := "E", terminals := ["n", "+"], nonterminals := ["E", "N"]
    rules := [{ id := 0, lhs := "E", body := ["E", "+", "E"] }, { id := 1, lhs := "E", body := ["n"] },
      { id := 2, lhs := "E", body := ["N"] }, { id := 3, lhs := "N", body := ["n"] }] }

/-- The compilation of the ambiguous grammar. -/
def ambiguousCompilation : Compilation :=
  Compilation.ofAnalysis (Analysis.ofGrammar ambiguousGrammar.augmented)

theorem compiled_ambiguous : Compiled ambiguousGrammar ambiguousCompilation where
  assembled := ⟨"ambiguous", "E", ["n", "+"], ["E", "N"],
    [some { id := 0, lhs := "E", body := ["E", "+", "E"] }, some { id := 1, lhs := "E", body := ["n"] },
      some { id := 2, lhs := "E", body := ["N"] }, some { id := 3, lhs := "N", body := ["n"] }], rfl⟩
  disjoint := by decide
  compiled := rfl
  rules_fit := by decide
  states_fit := by decide +kernel

/-- The ambiguous grammar has conflicts of both kinds. -/
theorem table_exact_ambiguous :
    ambiguousCompilation.table.conflicts
        = [⟨2, "$", .reduceReduce, .reduce 2, .reduce 4⟩, ⟨2, "+", .reduceReduce, .reduce 2, .reduce 4⟩,
          ⟨5, "+", .shiftReduce, .shift 4, .reduce 1⟩] ∧
      ambiguousCompilation.Exact :=
  ⟨by decide +kernel, compiled_ambiguous.table_exact⟩

end ShiftReduce
