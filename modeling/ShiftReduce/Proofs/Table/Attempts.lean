import Mathlib.Data.List.Sort
import ShiftReduce.Proofs.Analysis.Follow
import ShiftReduce.Proofs.Automaton.Entrance
import ShiftReduce.Proofs.Table.Rows

/-! # Attempts — the first one wins, and every later one is a conflict

    The row of a state is filled in two passes.  The moves of the state come
    first and never meet each other.  Then the completed items make their
    attempts, in the order of their rules and of the symbols that can follow:
    an attempt at an empty cell succeeds, and every other attempt is reported.
    Acceptance overwrites its cell, but it is attempted before all reductions
    and the end marker has no shift, so that it always finds the cell empty.
    No two attempts of a state have the same symbol and rule, so no report is
    taken for one that was made before.  Therefore a blank row is filled with
    what `winner` says, and the conflicts are those of `losers`
    (`Tabular.enterState_fills`). -/

namespace ShiftReduce

namespace Table

/-- The SLR(1) tables of a grammar. -/
def ofGrammar (g : Grammar) : Table :=
  build (Analysis.ofGrammar g) (Automaton.build g)

/-- A rooted grammar whose states and rules all have numbers that fit into a
    cell. -/
structure Tabular (g : Grammar) (s : Symbol) : Prop extends Automaton.Surveyed g s where
  rules_fit : g.size ≤ 2147483646
  cells_fit : (Automaton.build g).size < 2147483648

/-- A table with the rows and the columns for a grammar. -/
structure Ruled (g : Grammar) (t : Table) : Prop where
  shaped : t.Shaped
  size : t.stateCount = (Automaton.build g).size
  terminals : t.terminals = g.terminals ++ [Symbol.endMarker]
  nonterminals : t.nonterminals = g.nonterminals.filter fun n => n != g.start

/-- Filling a row brings no reduction in that the grammar has no rule for. -/
theorem Fills.ruled {g : Grammar} {k : Nat} {row : Symbol → Option Action}
    {gotos : Symbol → Option Int} {reports : List Conflict} {t t' : Table}
    (h : Fills k row gotos reports t t') (ht : Ruled g t) : Ruled g t' where
  shaped := h.shaped
  size := h.size.trans ht.size
  terminals := h.terminals.trans ht.terminals
  nonterminals := h.nonterminals.trans ht.nonterminals

/-! ## Winners and losers -/

/-- What an item attempts to enter, and where. -/
def attemptsOf (g : Grammar) (i : Item) : List (Symbol × Action) :=
  match g.rule? i.rule with
  | none => []
  | some r =>
    if (i.next? g).isSome then []
    else if r.lhs = g.start then [(Symbol.endMarker, .accept)]
    else ((Analysis.ofGrammar g).follow r.lhs).map fun x => (x, .reduce r.id)

/-- The attempts of all items of a state, in order. -/
def attempts (g : Grammar) (st : Automaton.State) : List (Symbol × Action) :=
  (ItemSet.sorted st.items).flatMap (attemptsOf g)

/-- The action for a cell: the shift, or else the first attempt. -/
def winner (g : Grammar) (st : Automaton.State) (x : Symbol) : Option Action :=
  (shiftAmong g st.transitions x).or ((attempts g st).lookup x)

/-- The conflicts of the attempts that another action has won against. -/
def losers (g : Grammar) (st : Automaton.State) : List Conflict :=
  (attempts g st).filterMap (lost? st.id (winner g st))

/-! ## The attempts of a state -/

theorem sortBy_eq_insertionSort {α : Type} (le : α → α → Bool) (xs : List α) :
    sortBy le xs = xs.insertionSort fun x y => le x y = true := by
  have hinsert : ∀ (x : α) (ys : List α),
      insertBy le x ys = ys.orderedInsert (fun x y => le x y = true) x := by
    intro x ys
    induction ys with
    | nil => rfl
    | cons y ys ih => rw [insertBy, List.orderedInsert_cons, ih]
  induction xs with
  | nil => rfl
  | cons x xs ih => rw [List.insertionSort_cons, ← ih, ← hinsert]; rfl

/-- Sorted items are in order, and none is listed twice if none was. -/
theorem sorted_items {items : ItemSet} (h : items.Nodup) :
    (ItemSet.sorted items).Pairwise fun i j => Item.le i j = true ∧ i ≠ j := by
  have htotal : Std.Total fun i j : Item => Item.le i j = true := by
    refine ⟨fun i j => ?_⟩
    simp only [Item.le]
    grind
  have htrans : IsTrans Item fun i j => Item.le i j = true := by
    refine ⟨fun i j k => ?_⟩
    simp only [Item.le]
    grind
  rw [ItemSet.sorted, sortBy_eq_insertionSort]
  refine List.Pairwise.and (List.pairwise_insertionSort _ items) ?_
  exact (List.perm_insertionSort _ items).nodup_iff.mpr h

section Attempts

variable {g : Grammar} {s : Symbol} {k : Nat} {st : Automaton.State}

/-- The attempts an item gives rise to: none unless it is complete, then accepting at
    the end marker for a rule of the start symbol and reducing on the follow set for any
    other rule. -/
theorem mem_attemptsOf {i : Item} {x : Symbol} {a : Action} :
    (x, a) ∈ attemptsOf g i ↔ ∃ r, g.rule? i.rule = some r ∧ i.next? g = none ∧
      (r.lhs = g.start ∧ x = Symbol.endMarker ∧ a = .accept ∨
        r.lhs ≠ g.start ∧ x ∈ (Analysis.ofGrammar g).follow r.lhs ∧ a = .reduce r.id) := by
  rw [attemptsOf]
  cases hr : g.rule? i.rule with
  | none => simp
  | some r =>
      cases hnext : i.next? g with
      | some y => simp
      | none =>
          by_cases hlhs : r.lhs = g.start
          · simp [hlhs]
          · simp [hlhs, @eq_comm _ (Action.reduce r.id) a]

/-- The dot of a completed item stands behind the body. -/
theorem dot_of_completed {i : Item} (hi : i.Known g k) {r : Production}
    (hr : g.rule? i.rule = some r) (hnext : i.next? g = none) : i.dot = r.length := by
  obtain ⟨r', hr', hlow, hhigh, -⟩ := hi
  obtain rfl : r = r' := Option.some.inj (hr.symm.trans hr')
  obtain ⟨d, hd⟩ := Int.eq_ofNat_of_zero_le hlow
  rw [Item.next?, hr, hd] at hnext
  have hout : r.body.length ≤ d := List.getElem?_eq_none_iff.mp hnext
  rw [Production.length]
  omega

namespace Tabular

/-- An attempt is made in the name of the rule of its item. -/
theorem target_of_mem (h : Tabular g s) {i : Item} {e : Symbol × Action}
    (he : e ∈ attemptsOf g i) : e.2.target = i.rule := by
  obtain ⟨r, hr, -, ⟨hlhs, -, ha⟩ | ⟨-, -, ha⟩⟩ := mem_attemptsOf.mp he
  · rw [ha, ← h.id_of_rule? hr, h.root_only r (Grammar.mem_of_rule? hr) hlhs]
    rfl
  · rw [ha, ← h.id_of_rule? hr]
    rfl

/-- Attempts are made at columns, with actions that fit into cells. -/
theorem attempt_column (h : Tabular g s) {i : Item} {e : Symbol × Action}
    (he : e ∈ attemptsOf g i) : e.1 ∈ g.terminals ++ [Symbol.endMarker] ∧ e.2.Fits := by
  obtain ⟨r, hr, -, ⟨-, hx, ha⟩ | ⟨-, hx, ha⟩⟩ := mem_attemptsOf.mp he
  · rw [hx, ha]
    exact ⟨by simp, trivial⟩
  · have hmem := Grammar.mem_of_rule? hr
    have hid := h.id_range hmem
    have hrules := h.rules_fit
    have hwithin := (Follow.stage_sets h.toWellFormed).within r.lhs (h.lhs_mem r hmem) e.1 hx
    rw [ha]
    refine ⟨?_, hid.1, by omega⟩
    rcases List.mem_cons.mp hwithin with hend | hterm
    · rw [hend]
      simp
    · exact List.mem_append_left _ hterm

/-- Rule 0 is the only one of the start symbol. -/
theorem lhs_ne_start_iff (h : Tabular g s) {p : Int} {r : Production}
    (hr : g.rule? p = some r) : r.lhs ≠ g.start ↔ 0 < p := by
  have hmem := Grammar.mem_of_rule? hr
  have hid := h.id_of_rule? hr
  constructor
  · intro hlhs
    have hne : p ≠ 0 := by
      rintro rfl
      rw [h.rule?_zero] at hr
      exact hlhs (by rw [← Option.some.inj hr])
    have hrange := h.id_range hmem
    omega
  · intro hp hlhs
    have hzero := h.root_only r hmem hlhs
    omega

/-- The accepting item is the only completed one of a rule of the start
    symbol. -/
theorem eq_accepting (h : Tabular g s) {i : Item} (hi : i.Known g k) {r : Production}
    (hr : g.rule? i.rule = some r) (hnext : i.next? g = none) (hlhs : r.lhs = g.start) :
    i = Item.accepting :=
  hi.eq_accepting h.toRooted.planted hr hnext hlhs

/-- An item of rule 0 that does not accept attempts nothing. -/
theorem attemptsOf_rule_zero (h : Tabular g s) {i : Item} (hi : i.Known g k) (hrule : i.rule = 0)
    (hne : i ≠ Item.accepting) : attemptsOf g i = [] := by
  refine List.eq_nil_iff_forall_not_mem.mpr ?_
  rintro ⟨x, a⟩ he
  obtain ⟨r, hr, hnext, -⟩ := mem_attemptsOf.mp he
  have hlhs : r.lhs = g.start := by
    rw [hrule, h.rule?_zero] at hr
    rw [← Option.some.inj hr]
  exact hne (h.eq_accepting hi hr hnext hlhs)

/-! ## Items by attempts -/

/-- What entering an item comes to. -/
theorem enterItem_unfold (g : Grammar) (n : Nat) (t : Table) (i : Item) :
    t.enterItem (Analysis.ofGrammar g) n i = match g.rule? i.rule with
      | none => t
      | some r =>
        if (i.next? g).isSome then t
        else if r.lhs = g.start then t.enterAccept n
        else ((Analysis.ofGrammar g).follow r.lhs).foldl (enterReduction r.id n) t := by
  have hred : (!i.isReduction g) = (i.next? g).isSome := by
    rw [Item.isReduction]
    cases i.next? g <;> rfl
  rw [← hred]
  rfl

theorem terminals_attempt (n : Nat) (t : Table) (e : Symbol × Action) :
    (attempt n t e).terminals = t.terminals := by
  rw [attempt]
  split
  · split
    · rfl
    · exact (report_frame t _).2.1
  · exact (setAction_frame t n e.1 e.2).2.1

theorem terminals_foldl_attempt (n : Nat) (entries : List (Symbol × Action)) (t : Table) :
    (entries.foldl (attempt n) t).terminals = t.terminals := by
  induction entries generalizing t with
  | nil => rfl
  | cons e entries ih => rw [List.foldl_cons, ih, terminals_attempt]

/-- Reductions are attempts. -/
theorem foldl_enterReduction (p : Int) (n : Nat) (follow : SymbolSet) :
    ∀ {t : Table}, (∀ x ∈ follow, x ∈ t.terminals) →
      follow.foldl (enterReduction p n) t
        = (follow.map fun x => (x, Action.reduce p)).foldl (attempt n) t := by
  induction follow with
  | nil =>
      intro t _
      rfl
  | cons x follow ih =>
      intro t hcolumns
      have hfirst : t.enterReduction p n x = attempt n t (x, .reduce p) := by
        have hcolumn : ¬ (column? t.terminals x).isNone = true := by
          rw [column?_isNone]
          exact not_not_intro (hcolumns x List.mem_cons_self)
        rw [enterReduction, if_neg hcolumn]
        rfl
      rw [List.foldl_cons, List.map_cons, List.foldl_cons, hfirst]
      refine ih ?_
      intro y hy
      rw [terminals_attempt]
      exact hcolumns y (List.mem_cons_of_mem _ hy)

/-- Entering an item makes its attempts, if acceptance finds an empty cell. -/
theorem enterItem_eq (h : Tabular g s) {t : Table}
    (hcolumns : t.terminals = g.terminals ++ [Symbol.endMarker]) {i : Item} (hi : i.Known g k)
    {n : Nat} (hfree : i = Item.accepting → t.action? n Symbol.endMarker = none) :
    t.enterItem (Analysis.ofGrammar g) n i = (attemptsOf g i).foldl (attempt n) t := by
  have hcolumn : ∀ e ∈ attemptsOf g i, e.1 ∈ t.terminals := by
    intro e he
    rw [hcolumns]
    exact (h.attempt_column he).1
  rw [enterItem_unfold]
  rw [attemptsOf] at hcolumn ⊢
  cases hr : g.rule? i.rule with
  | none => rfl
  | some r =>
      -- the code and the list of attempts ask the same three questions of the item
      rw [hr] at hcolumn
      dsimp only at hcolumn ⊢
      cases hnext : i.next? g with
      | some x => rfl
      | none =>
          rw [hnext] at hcolumn
          simp only [Option.isSome_none, Bool.false_eq_true, if_false] at hcolumn ⊢
          by_cases hlhs : r.lhs = g.start
          · rw [if_pos hlhs, if_pos hlhs, List.foldl_cons, List.foldl_nil, enterAccept, attempt,
              hfree (h.eq_accepting hi hr hnext hlhs)]
          · rw [if_neg hlhs] at hcolumn
            rw [if_neg hlhs, if_neg hlhs]
            refine foldl_enterReduction r.id n _ ?_
            intro x hx
            exact hcolumn (x, .reduce r.id) (List.mem_map_of_mem hx)

/-- Entering sorted items makes all their attempts: nothing comes before the
    accepting item but items that attempt nothing. -/
theorem foldl_enterItem (h : Tabular g s) {n : Nat} {items : List Item} :
    ∀ {t : Table}, t.terminals = g.terminals ++ [Symbol.endMarker] →
      (∀ i ∈ items, i.Known g k) →
      items.Pairwise (fun i j => Item.le i j = true ∧ i ≠ j) →
      (Item.accepting ∈ items → t.action? n Symbol.endMarker = none) →
        items.foldl (enterItem (Analysis.ofGrammar g) n) t
          = (items.flatMap (attemptsOf g)).foldl (attempt n) t := by
  induction items with
  | nil =>
      intro t _ _ _ _
      rfl
  | cons i items ih =>
      intro t hcolumns hknown hsorted hfree
      have hi := hknown i List.mem_cons_self
      obtain ⟨hfirst, hrest⟩ := List.pairwise_cons.mp hsorted
      have hone := h.enterItem_eq hcolumns hi (n := n) (by
        rintro rfl
        exact hfree List.mem_cons_self)
      rw [List.foldl_cons, List.flatMap_cons, List.foldl_append, hone]
      refine ih ?_ (fun j hj => hknown j (List.mem_cons_of_mem _ hj)) hrest ?_
      · rw [terminals_foldl_attempt, hcolumns]
      · intro haccepting
        obtain ⟨hle, hne⟩ := hfirst _ haccepting
        -- an item that comes before the accepting one
        -- is of the start rule too, and not complete
        have hrule : i.rule = 0 := by
          obtain ⟨r, hr, -⟩ := hi
          have hid := h.id_range (Grammar.mem_of_rule? hr)
          rw [h.id_of_rule? hr] at hid
          rw [Item.le, Item.accepting] at hle
          split at hle
          · rename_i hzero
            exact hzero
          · have hle' : i.rule ≤ 0 := by simpa using hle
            omega
        rw [h.attemptsOf_rule_zero hi hrule hne]
        exact hfree (List.mem_cons_of_mem _ haccepting)

/-! ## The order of attempts -/

/-- Attempts are ordered by rule, then by symbol. -/
def Earlier (e e' : Symbol × Action) : Prop :=
  e.2.target < e'.2.target ∨ e.2.target = e'.2.target ∧ e.1 < e'.1

/-- The attempts of a state are made in order, and none is made twice. -/
theorem attempts_ordered (h : Tabular g s) (hst : (Automaton.build g).states[k]? = some st) :
    (attempts g st).Pairwise Earlier := by
  have hnodup : st.items.Nodup :=
    h.sound.orderly.nodup _ (List.mem_of_getElem? (Automaton.getElem?_states.mp hst).2.1)
  refine List.pairwise_flatMap.mpr ⟨?_, ?_⟩
  · intro i hi
    rw [attemptsOf]
    cases hr : g.rule? i.rule with
    | none => exact List.Pairwise.nil
    | some r =>
        dsimp only
        split
        · exact List.Pairwise.nil
        · split
          · exact List.pairwise_singleton _ _
          · refine List.pairwise_map.mpr ?_
            have hsorted : ((Analysis.ofGrammar g).follow r.lhs).Sorted :=
              (Follow.stage_sets h.toWellFormed).sorted r.lhs
            exact hsorted.imp fun hlt => Or.inr ⟨rfl, hlt⟩
  · refine (sorted_items hnodup).imp_of_mem ?_
    rintro i j hi hj ⟨hle, hne⟩ e he e' he'
    refine Or.inl ?_
    rw [h.target_of_mem he, h.target_of_mem he']
    -- two completed items of one rule are the same item
    obtain ⟨r, hr, hnext, -⟩ := mem_attemptsOf.mp he
    obtain ⟨r', hr', hnext', -⟩ := mem_attemptsOf.mp he'
    have hdot := dot_of_completed (h.known hst (mem_sortBy.mp hi)).1 hr hnext
    have hdot' := dot_of_completed (h.known hst (mem_sortBy.mp hj)).1 hr' hnext'
    have hrules : i.rule ≠ j.rule := by
      intro heq
      rw [heq, hr'] at hr
      obtain rfl := Option.some.inj hr
      refine hne ?_
      obtain ⟨rule, dot⟩ := i
      obtain ⟨rule', dot'⟩ := j
      simp only at heq hdot hdot'
      rw [heq, hdot, hdot']
    rw [Item.le, if_neg hrules] at hle
    have hle' : i.rule ≤ j.rule := by simpa using hle
    omega

/-- No two attempts of a state have the same key, so the order they are made in is
    settled by the keys alone. -/
theorem nodup_keys (h : Tabular g s) (hst : (Automaton.build g).states[k]? = some st) :
    ((attempts g st).map key).Nodup := by
  refine List.pairwise_map.mpr ((h.attempts_ordered hst).imp ?_)
  rintro e e' hearlier heq
  obtain ⟨hsymbol, htarget⟩ := Prod.mk.inj heq
  rcases hearlier with hlt | ⟨-, hlt⟩
  · rw [htarget] at hlt
    exact Int.lt_irrefl _ hlt
  · rw [hsymbol] at hlt
    exact String.lt_irrefl _ hlt

/-! ## Rows -/

/-- No state shifts the end marker. -/
theorem shiftAmong_endMarker (h : Tabular g s) (moves : List (Symbol × Nat)) :
    shiftAmong g moves Symbol.endMarker = none := by
  rw [shiftAmong, if_neg]
  intro hterm
  exact (h.ne_of_mem (Or.inl (Grammar.isTerminal_iff.mp hterm))).2.1 rfl

/-- A move is made over a symbol of some rule. -/
theorem exists_body_of_move (h : Tabular g s) (hst : (Automaton.build g).states[k]? = some st)
    {m : Symbol × Nat} (hm : m ∈ st.transitions) : ∃ r ∈ g.rules, m.1 ∈ r.body := by
  obtain ⟨i, -, hnext⟩ := h.exists_expecting hst hm
  obtain ⟨r, hr, d, -, hbody⟩ := Item.next?_eq_some hnext
  exact ⟨r, Grammar.mem_of_rule? hr, List.mem_of_getElem? hbody⟩

/-- Moves have columns, and lead to states with numbers that fit into cells. -/
theorem move_column (h : Tabular g s) (hst : (Automaton.build g).states[k]? = some st) {t : Table}
    (ht : Ruled g t) {m : Symbol × Nat} (hm : m ∈ st.transitions) :
    m.2 < 2147483648 ∧ (m.1 ∈ g.terminals → m.1 ∈ t.terminals) ∧
      (m.1 ∉ g.terminals → m.1 ∈ t.nonterminals) := by
  obtain ⟨r, hmem, hx⟩ := h.exists_body_of_move hst hm
  refine ⟨?_, ?_, ?_⟩
  · obtain ⟨-, -, st', hst', -⟩ := h.target hst hm
    obtain ⟨hlt, -⟩ := List.getElem?_eq_some_iff.mp hst'
    exact Nat.lt_trans hlt h.cells_fit
  · intro hterm
    rw [ht.terminals]
    exact List.mem_append_left _ hterm
  · intro hterm
    have hne : m.1 ≠ g.start := by
      intro heq
      rw [heq] at hx
      exact h.start_unused r hmem hx
    rw [ht.nonterminals]
    simpa using ⟨(h.body_mem r hmem m.1 hx).resolve_left hterm, hne⟩

/-- The moves of a state fill a blank row. -/
theorem moves_fill (h : Tabular g s) (hst : (Automaton.build g).states[k]? = some st) {t : Table}
    (ht : Ruled g t) (haction : ∀ x, t.action? k x = none) (hgoto : ∀ x, t.goto? k x = none) :
    Fills k (shiftAmong g st.transitions) (gotoAmong g st.transitions) [] t
      (st.transitions.foldl (enterMove g k) t) := by
  obtain ⟨hk, -⟩ := List.getElem?_eq_some_iff.mp hst
  have hmoves := foldl_enterMove ht.shaped (by rw [ht.size]; exact hk)
    (fun m hm => h.move_column hst ht hm) (fun x n n' hn hn' => h.transition_unique hst hn hn')
  refine hmoves.congr ?_ ?_
  · intro x
    rw [haction, Option.or_none]
  · intro x
    rw [hgoto, Option.or_none]

/-- A blank row is filled with the winners and the gotos of its state, and the
    losers are reported. -/
theorem enterState_fills (h : Tabular g s) (hst : (Automaton.build g).states[k]? = some st)
    {t : Table} (ht : Ruled g t) (haction : ∀ x, t.action? k x = none)
    (hgoto : ∀ x, t.goto? k x = none) (hconflicts : ∀ d ∈ t.conflicts, d.state ≠ k) :
    Fills k (winner g st) (gotoAmong g st.transitions) (losers g st) t
      (t.enterState (Analysis.ofGrammar g) st) := by
  have hid : st.id = k := (Automaton.getElem?_states.mp hst).1
  obtain ⟨hk, -⟩ := List.getElem?_eq_some_iff.mp hst
  have hmoves := h.moves_fill hst ht haction hgoto
  have hruled := hmoves.ruled ht
  -- behind the moves the cell for acceptance is empty, and there are no new conflicts
  have hitems := h.foldl_enterItem hruled.terminals
    (fun i hi => (h.known hst (mem_sortBy.mp hi)).1)
    (sorted_items (h.sound.orderly.nodup _
      (List.mem_of_getElem? (Automaton.getElem?_states.mp hst).2.1)))
    (fun _ => (hmoves.action_self _).trans (h.shiftAmong_endMarker _))
  have hattempts := foldl_attempt hruled.shaped (by rw [hruled.size]; exact hk) (by
      intro e he
      obtain ⟨i, -, hi⟩ := List.mem_flatMap.mp he
      rw [hruled.terminals]
      exact h.attempt_column hi) (h.nodup_keys hst) (by
      intro d hd hstate
      rw [hmoves.conflicts, List.append_nil] at hd
      exact absurd hstate (hconflicts d hd))
  rw [funext hmoves.action_self] at hattempts
  rw [enterState, hid, losers, hid]
  show Fills k _ _ _ t ((sortBy Item.le st.items).foldl (enterItem (Analysis.ofGrammar g) k)
    (st.transitions.foldl (enterMove g k) t))
  rw [hitems]
  exact (hmoves.trans hattempts).congr (fun _ => rfl) hmoves.goto_self

end Tabular

end Attempts

end Table

end ShiftReduce
