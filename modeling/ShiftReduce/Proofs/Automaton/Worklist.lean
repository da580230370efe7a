import ShiftReduce.Proofs.Automaton.Canonical

/-! # Worklist — the waiting state with the least number is visited next

    The automaton can be built with a set of states that wait to be visited: the one
    with the least number is taken out, every symbol is tried on it, and states that
    are found on the way are numbered and have to wait, too.  A survey goes through
    its sets by number instead.  Both come to the same automaton, since the numbers
    that wait are always those behind the rows (`Survey.agenda`): what is taken out
    first came in first. -/

namespace ShiftReduce

namespace Automaton

/-- An automaton in the making by a worklist: the states that have been found, with
    the transitions that have been entered, and the numbers of those that wait. -/
structure Agenda where
  states : List State
  pending : List Nat

namespace Agenda

/-- The first state, which waits. -/
def initial (g : Grammar) : Agenda where
  states := [{ id := 0, items := ItemSet.closure g [Item.start], transitions := [] }]
  pending := [0]

/-- Adds a state with a new number, which has to wait. -/
def append (a : Agenda) (items : ItemSet) : Agenda where
  states := a.states ++ [{ id := a.states.length, items, transitions := [] }]
  pending := a.pending ++ [a.states.length]

/-- Enters a transition of state number `k`. -/
def link (a : Agenda) (k : Nat) (x : Symbol) (l : Nat) : Agenda :=
  { a with states := a.states.modify k fun st =>
      { st with transitions := st.transitions ++ [(x, l)] } }

/-- Tries one symbol on a state. -/
def explore (g : Grammar) (source : State) (a : Agenda) (x : Symbol) : Agenda :=
  match ItemSet.move g source.items x with
  | [] => a
  | target =>
    match a.states.find? fun st => ItemSet.same st.items target with
    | some st => a.link source.id x st.id
    | none => (a.append target).link source.id x a.states.length

/-- The loop, as long as states wait: it ends with the given states. -/
inductive Ends (g : Grammar) : Agenda → List State → Prop where
  | done {a : Agenda} (h : a.pending = []) : Ends g a a.states
  | visit {a : Agenda} {k : Nat} {st : State} {states : List State}
      (hleast : a.pending.min? = some k) (hst : a.states[k]? = some st)
      (h : Ends g (g.symbols.foldl (explore g st) { a with pending := a.pending.erase k }) states) :
      Ends g a states

/-- The loop ends in one way only. -/
theorem Ends.unique {g : Grammar} {a : Agenda} {states states' : List State}
    (h : Ends g a states) (h' : Ends g a states') : states = states' := by
  have hnone : ∀ {b : Agenda} {k : Nat}, b.pending = [] → b.pending.min? ≠ some k := by
    intro b k hpending hleast
    rw [hpending] at hleast
    cases hleast
  induction h with
  | done hpending =>
      cases h' with
      | done => rfl
      | visit hleast => exact absurd hleast (hnone hpending)
  | visit hleast hst _ ih =>
      cases h' with
      | done hpending => exact absurd hleast (hnone hpending)
      | visit hleast' hst' h' =>
          obtain rfl := Option.some.inj (hleast.symm.trans hleast')
          obtain rfl := Option.some.inj (hst.symm.trans hst')
          exact ih h'

end Agenda

/-- The worklist at the moment that a survey shows. -/
def Survey.agenda (v : Survey) : Agenda where
  states := v.sets.mapIdx fun k items =>
    { id := k, items, transitions := (v.rows[k]?).getD [] }
  pending := List.range' v.rows.length (v.sets.length - v.rows.length)

variable {g : Grammar} {v : Survey} {rows : List (List (Symbol × Nat))}
  {row : List (Symbol × Nat)} {sets : List ItemSet} {x : Symbol} {l : Nat}

/-- The state at a place is made of the set and the row at that place. -/
theorem getElem?_agenda (k : Nat) : v.agenda.states[k]? =
    v.sets[k]?.map fun items => { id := k, items, transitions := (v.rows[k]?).getD [] } := by
  rw [Survey.agenda, List.getElem?_mapIdx]

theorem length_agenda : v.agenda.states.length = v.sets.length :=
  List.length_mapIdx

/-! ## Taking the least number out -/

/-- Sets without a row wait by number. -/
theorem min?_agenda (h : v.rows.length < v.sets.length) :
    v.agenda.pending.min? = some v.rows.length := by
  refine List.min?_eq_some_iff.mpr ⟨List.mem_range'_1.mpr (by omega), ?_⟩
  intro k hk
  exact (List.mem_range'_1.mp hk).1

/-- A visit begins with an empty row. -/
theorem erase_agenda (h : v.rows.length < v.sets.length) :
    { v.agenda with pending := v.agenda.pending.erase v.rows.length }
      = Survey.agenda { v with rows := v.rows ++ [[]] } := by
  have hrow : ∀ k : Nat, ((v.rows ++ [[]])[k]?).getD [] = (v.rows[k]?).getD [] := by
    intro k
    rcases Nat.lt_or_ge k v.rows.length with hk | hk
    · rw [List.getElem?_append_left hk]
    · rw [List.getElem?_append_right hk, List.getElem?_eq_none hk]
      cases k - v.rows.length <;> rfl
  obtain ⟨n, hn⟩ : ∃ n, v.sets.length - v.rows.length = n + 1 :=
    ⟨v.sets.length - v.rows.length - 1, by omega⟩
  have hpending : v.agenda.pending.erase v.rows.length
      = List.range' (v.rows.length + 1) (v.sets.length - (v.rows.length + 1)) := by
    rw [Survey.agenda, hn, List.range'_succ, List.erase_cons_head]
    congr 1
    omega
  rw [hpending, Survey.agenda, Survey.agenda, List.length_append, List.length_singleton]
  simp only [hrow]

/-! ## Trying a symbol -/

/-- A set that is found belongs to the state with its number. -/
theorem find?_agenda (target : ItemSet) :
    (v.agenda.states.find? fun st => ItemSet.same st.items target).map State.id
      = v.sets.findIdx? fun t => ItemSet.same t target := by
  have hget : ∀ k (hk : k < v.agenda.states.length) (hk' : k < v.sets.length),
      v.agenda.states[k].items = v.sets[k] ∧ v.agenda.states[k].id = k := by
    intro k hk hk'
    have hst := getElem?_agenda (v := v) k
    rw [List.getElem?_eq_getElem hk, List.getElem?_eq_getElem hk'] at hst
    rw [Option.some.inj hst]
    exact ⟨rfl, rfl⟩
  cases hfind : v.sets.findIdx? fun t => ItemSet.same t target with
  | some k =>
      -- the first set with these items belongs to the first state with them
      obtain ⟨hlt, hsame, hfirst⟩ := List.findIdx?_eq_some_iff_getElem.mp hfind
      have hlt' : k < v.agenda.states.length := by
        rw [length_agenda]
        exact hlt
      refine Option.map_eq_some_iff.mpr ⟨v.agenda.states[k], ?_, (hget k hlt' hlt).2⟩
      refine List.find?_eq_some_iff_getElem.mpr ⟨?_, k, hlt', rfl, ?_⟩
      · rw [(hget k hlt' hlt).1]
        exact hsame
      · intro j hj
        rw [(hget j (Nat.lt_trans hj hlt') (Nat.lt_trans hj hlt)).1]
        simpa using hfirst j hj
  | none =>
      have hnone := List.findIdx?_eq_none_iff.mp hfind
      refine Option.map_eq_none_iff.mpr (List.find?_eq_none.mpr ?_)
      intro st hst
      obtain ⟨k, hk⟩ := List.mem_iff_getElem?.mp hst
      rw [getElem?_agenda] at hk
      obtain ⟨items, hitems, rfl⟩ := Option.map_eq_some_iff.mp hk
      simpa using hnone items (List.mem_of_getElem? hitems)

/-- A new state without transitions is a new set without a row. -/
theorem append_agenda (h : rows.length ≤ sets.length) (target : ItemSet) :
    (Survey.agenda { sets, rows }).append target = Survey.agenda { sets := sets ++ [target], rows } := by
  have hpending : List.range' rows.length (sets.length - rows.length) ++ [sets.length]
      = List.range' rows.length ((sets ++ [target]).length - rows.length) := by
    rw [List.length_append, List.length_singleton, Nat.sub_add_comm h, List.range'_concat]
    congr 2
    omega
  rw [Agenda.append, length_agenda]
  unfold Survey.agenda
  rw [hpending, List.mapIdx_concat, List.getElem?_eq_none h]
  rfl

/-- A new transition of the state being visited goes into the last row. -/
theorem link_agenda :
    (Survey.agenda { sets, rows := rows ++ [row] }).link rows.length x l
      = Survey.agenda { sets, rows := rows ++ [row ++ [(x, l)]] } := by
  have hstates : ((Survey.agenda { sets, rows := rows ++ [row] }).link rows.length x l).states
      = (Survey.agenda { sets, rows := rows ++ [row ++ [(x, l)]] }).states := by
    refine List.ext_getElem? ?_
    intro k
    rw [Agenda.link, List.getElem?_modify, getElem?_agenda, getElem?_agenda]
    by_cases hk : rows.length = k
    · subst hk
      cases sets[rows.length]? <;> simp
    · -- the other rows are the same
      have hother : (rows ++ [row])[k]? = (rows ++ [row ++ [(x, l)]])[k]? := by
        rcases Nat.lt_or_ge k rows.length with hlt | hge
        · rw [List.getElem?_append_left hlt, List.getElem?_append_left hlt]
        · rw [List.getElem?_eq_none (by simp; omega), List.getElem?_eq_none (by simp; omega)]
      simp only [if_neg hk, hother]
      cases sets[k]? <;> rfl
  have hpending : ((Survey.agenda { sets, rows := rows ++ [row] }).link rows.length x l).pending
      = (Survey.agenda { sets, rows := rows ++ [row ++ [(x, l)]] }).pending := by
    rw [Agenda.link, Survey.agenda, Survey.agenda, List.length_append, List.length_append]
    rfl
  exact Agenda.mk.injEq .. |>.mpr ⟨hstates, hpending⟩

/-- The worklist and the survey enter the same transition. -/
theorem explore_agenda (h : rows.length < sets.length) {st : State} (hst : st.id = rows.length) :
    (Survey.agenda { sets, rows := rows ++ [row] }).explore g st x
      = Survey.agenda { sets := (tryMove g st.items (row, sets) x).2
                        rows := rows ++ [(tryMove g st.items (row, sets) x).1] } := by
  rw [Agenda.explore, tryMove]
  cases hmove : ItemSet.move g st.items x with
  | nil => rfl
  | cons i items =>
      have hfound := find?_agenda (v := { sets, rows := rows ++ [row] }) (i :: items)
      dsimp only
      rw [locate, ← hfound, hst]
      cases hfind : (Survey.agenda { sets, rows := rows ++ [row] }).states.find?
          fun st => ItemSet.same st.items (i :: items) with
      | some st' => exact link_agenda
      | none =>
          -- a new state has to wait, and then the transition to it is entered
          rw [append_agenda (by rw [List.length_append]; exact h), length_agenda]
          exact link_agenda

/-- Exploring all symbols of a state is what one visit of the survey does. -/
theorem foldl_explore_agenda {st : State} (hst : st.id = rows.length) (xs : List Symbol)
    (found : List (Symbol × Nat) × List ItemSet) (h : rows.length < found.2.length) :
    xs.foldl (Agenda.explore g st) (Survey.agenda { sets := found.2, rows := rows ++ [found.1] })
      = Survey.agenda { sets := (xs.foldl (tryMove g st.items) found).2
                        rows := rows ++ [(xs.foldl (tryMove g st.items) found).1] } := by
  induction xs generalizing found with
  | nil => rfl
  | cons x xs ih =>
      rw [List.foldl_cons, List.foldl_cons, explore_agenda h hst]
      exact ih _ (Nat.lt_of_lt_of_le h (prefix_tryMove g st.items found x).length_le)

/-! ## The loop -/

/-- A round of the worklist is a visit of the survey. -/
theorem visit_agenda {st : State} (hst : st.id = v.rows.length) (h : v.rows.length < v.sets.length) :
    g.symbols.foldl (Agenda.explore g st)
        { v.agenda with pending := v.agenda.pending.erase v.rows.length }
      = (v.visit g g.symbols st.items).agenda := by
  rw [erase_agenda h]
  exact foldl_explore_agenda hst g.symbols ([], v.sets) h

/-- A visit leaves no more rows than sets. -/
theorem length_visit_le (g : Grammar) (symbols : List Symbol) (s : ItemSet)
    (h : v.rows.length < v.sets.length) :
    (v.visit g symbols s).rows.length ≤ (v.visit g symbols s).sets.length := by
  have hsets := (prefix_foldl_tryMove g s symbols ([], v.sets)).length_le
  show (v.rows ++ [_]).length ≤ (symbols.foldl (tryMove g s) ([], v.sets)).2.length
  rw [List.length_append, List.length_singleton]
  exact Nat.lt_of_lt_of_le h hsets

/-- With a row for every set, nothing is left to be visited. -/
theorem ends_of_full (h : v.rows.length = v.sets.length) : Agenda.Ends g v.agenda v.agenda.states := by
  refine .done ?_
  rw [Survey.agenda, h, Nat.sub_self]
  rfl

/-- The worklist ends with the states that the survey ends with. -/
theorem ends_agenda : ∀ (fuel : Nat) {v : Survey}, v.rows.length ≤ v.sets.length →
    (v.complete g g.symbols fuel).rows.length = (v.complete g g.symbols fuel).sets.length →
      Agenda.Ends g v.agenda (v.complete g g.symbols fuel).agenda.states := by
  intro fuel
  induction fuel with
  | zero => exact fun _ hfull => ends_of_full hfull
  | succ fuel ih =>
      intro v hle hfull
      rw [Survey.complete] at hfull ⊢
      cases hnext : v.sets[v.rows.length]? with
      | none => exact ends_of_full (Nat.le_antisymm hle (List.getElem?_eq_none_iff.mp hnext))
      | some s =>
          -- the set without a row that comes next is the state that is taken out
          rw [hnext] at hfull
          obtain ⟨hlt, -⟩ := List.getElem?_eq_some_iff.mp hnext
          have hst := getElem?_agenda (v := v) v.rows.length
          rw [hnext, Option.map_some] at hst
          refine .visit (min?_agenda hlt) hst ?_
          rw [visit_agenda rfl hlt]
          exact ih (length_visit_le g g.symbols s hlt) hfull

/-- The worklist ends with the states of the automaton and no others. -/
theorem Charted.ends_initial_iff (h : Charted g) {states : List State} :
    Agenda.Ends g (Agenda.initial g) states ↔ states = (build g).states := by
  have hends : Agenda.Ends g (Agenda.initial g) (survey g).agenda.states :=
    ends_agenda (g := g) (Nat.pow 2 (itemCount g))
      (v := { sets := [ItemSet.closure g [Item.start]], rows := [] }) (Nat.zero_le _)
      h.rows_length.1
  have hstates : (survey g).agenda.states = (build g).states := by
    refine List.ext_getElem? ?_
    intro k
    rw [getElem?_agenda]
    cases hst : (build g).states[k]? with
    | some st =>
        obtain ⟨hid, hitems, hrow⟩ := getElem?_states.mp hst
        rw [hitems, hrow, ← hid]
        rfl
    | none =>
        rw [(h.getElem?_eq_none hst).1]
        rfl
  rw [hstates] at hends
  constructor
  · exact fun hother => hother.unique hends
  · rintro rfl
    exact hends

end Automaton

end ShiftReduce
