import ShiftReduce.Proofs.Grammar.WellFormed
import ShiftReduce.Proofs.Table.Cells

/-! # Filling rows — moves that never meet and attempts that may fail

    `Fills k row gotos reports t t'` says that the table `t'` is the table `t`
    with other contents of row `k` and with some more conflicts.  Writing moves
    fills a row if no symbol leads to two states.  An attempt to enter an action
    succeeds at an empty cell and is reported at any other.  A series of
    attempts therefore fills a row with the first attempt of every column that
    was empty, and reports all attempts that differ from what is in their cell
    in the end (`foldl_attempt`).  Reports are kept apart by cell and rule, so
    none is taken for an earlier one if no two attempts agree in both. -/

namespace ShiftReduce

namespace Table

/-! ## Filling a row -/

/-- A table with another row, and with more conflicts. -/
structure Fills (k : Nat) (row : Symbol → Option Action) (gotos : Symbol → Option Int)
    (reports : List Conflict) (t t' : Table) : Prop where
  shaped : t'.Shaped
  size : t'.stateCount = t.stateCount
  terminals : t'.terminals = t.terminals
  nonterminals : t'.nonterminals = t.nonterminals
  action : ∀ (l : Int) (x : Symbol), t'.action? l x = if l = k then row x else t.action? l x
  goto : ∀ (l : Int) (x : Symbol), t'.goto? l x = if l = k then gotos x else t.goto? l x
  conflicts : t'.conflicts = t.conflicts ++ reports

section Filling

variable {k : Nat} {row row' : Symbol → Option Action} {gotos gotos' : Symbol → Option Int}
  {reports reports' : List Conflict} {t t' t'' : Table}

namespace Fills

theorem refl (ht : t.Shaped) (k : Nat) : Fills k (t.action? k) (t.goto? k) [] t t where
  shaped := ht
  size := rfl
  terminals := rfl
  nonterminals := rfl
  action l x := by
    split
    · rename_i hl
      rw [hl]
    · rfl
  goto l x := by
    split
    · rename_i hl
      rw [hl]
    · rfl
  conflicts := (List.append_nil _).symm

/-- Two fillings of one row, one after the other, are one filling. -/
theorem trans (h : Fills k row gotos reports t t') (h' : Fills k row' gotos' reports' t' t'') :
    Fills k row' gotos' (reports ++ reports') t t'' where
  shaped := h'.shaped
  size := h'.size.trans h.size
  terminals := h'.terminals.trans h.terminals
  nonterminals := h'.nonterminals.trans h.nonterminals
  action l x := by
    rw [h'.action, h.action]
    split
    · rfl
    · rfl
  goto l x := by
    rw [h'.goto, h.goto]
    split
    · rfl
    · rfl
  conflicts := by rw [h'.conflicts, h.conflicts, List.append_assoc]

theorem congr (h : Fills k row gotos reports t t') (hrow : ∀ x, row x = row' x)
    (hgotos : ∀ x, gotos x = gotos' x) : Fills k row' gotos' reports t t' := by
  rw [← funext hrow, ← funext hgotos]
  exact h

/-- The row itself. -/
theorem action_self (h : Fills k row gotos reports t t') (x : Symbol) :
    t'.action? k x = row x := by
  rw [h.action, if_pos rfl]

theorem goto_self (h : Fills k row gotos reports t t') (x : Symbol) :
    t'.goto? k x = gotos x := by
  rw [h.goto, if_pos rfl]

end Fills

/-- Writing one action fills its row in one place and reports nothing. -/
theorem setAction_fills (ht : t.Shaped) (hk : k < t.stateCount) {x : Symbol} (hx : x ∈ t.terminals)
    {a : Action} (ha : a.Fits) :
    Fills k (fun y => if y = x then some a else t.action? k y) (t.goto? k) [] t
      (t.setAction k x a) := by
  obtain ⟨hsize, hterminals, hnonterminals, -, hconflicts⟩ := setAction_frame t k x a
  refine ⟨ht.setAction k x a, hsize, hterminals, hnonterminals, ?_, ?_, ?_⟩
  · intro l y
    rw [action?_setAction ht hk hx ha]
    by_cases hl : l = k
    · rw [if_pos hl, hl]
      simp
    · rw [if_neg hl, if_neg fun hly => hl hly.1]
  · intro l y
    rw [goto?_setAction]
    split
    · rename_i hl
      rw [hl]
    · rfl
  · rw [hconflicts, List.append_nil]

theorem setGoto_fills (ht : t.Shaped) (hk : k < t.stateCount) {x : Symbol}
    (hx : x ∈ t.nonterminals) {n : Nat} (hn : n < 2147483648) :
    Fills k (t.action? k) (fun y => if y = x then some (n : Int) else t.goto? k y) [] t
      (t.setGoto k x n) := by
  obtain ⟨hsize, hterminals, hnonterminals, -, hconflicts⟩ := setGoto_frame t k x n
  refine ⟨ht.setGoto k x n, hsize, hterminals, hnonterminals, ?_, ?_, ?_⟩
  · intro l y
    rw [action?_setGoto]
    split
    · rename_i hl
      rw [hl]
    · rfl
  · intro l y
    rw [goto?_setGoto ht hk hx hn]
    by_cases hl : l = k
    · rw [if_pos hl, hl]
      simp
    · rw [if_neg hl, if_neg fun hly => hl hly.1]
  · rw [hconflicts, List.append_nil]

/-- A report that was not made before is added. -/
theorem report_fills (ht : t.Shaped) (k : Nat) {c : Conflict}
    (hnew : ∀ d ∈ t.conflicts, d.state = c.state → d.symbol = c.symbol →
      d.candidate.target ≠ c.candidate.target) :
    Fills k (t.action? k) (t.goto? k) [c] t (t.report c) := by
  have hany : ¬ t.conflicts.any c.sameReport = true := by
    intro hany
    obtain ⟨d, hd, hsame⟩ := List.any_eq_true.mp hany
    simp only [Conflict.sameReport, Bool.and_eq_true, beq_iff_eq] at hsame
    exact hnew d hd hsame.1.1.1.symm hsame.1.1.2.symm hsame.2.symm
  have hreport : t.report c = { t with conflicts := t.conflicts ++ [c] } := by
    rw [report, if_neg hany]
  have hsame := Fills.refl ht k
  have hshaped := ht.report c
  rw [hreport] at hshaped ⊢
  exact ⟨hshaped, rfl, rfl, rfl, hsame.action, hsame.goto, rfl⟩

/-! ## Attempts -/

/-- The conflict of an attempt with another action in the row. -/
def lost? (k : Int) (row : Symbol → Option Action) (e : Symbol × Action) : Option Conflict :=
  (row e.1).bind fun w => if w = e.2 then none else some (Conflict.of k e.1 w e.2)

/-- An attempt is lost when another action stands in its cell already. -/
theorem lost?_eq_some_iff {k : Int} {row : Symbol → Option Action} {e : Symbol × Action}
    {d : Conflict} :
    lost? k row e = some d ↔ ∃ w, row e.1 = some w ∧ w ≠ e.2 ∧ d = Conflict.of k e.1 w e.2 := by
  rw [lost?, Option.bind_eq_some_iff]
  refine exists_congr fun w => and_congr_right fun _ => ?_
  by_cases heq : w = e.2
  · simp [heq]
  · simp [heq, eq_comm]

/-- Enters an action where there is none, and reports it where there is
    another. -/
def attempt (k : Nat) (t : Table) (e : Symbol × Action) : Table :=
  match t.action? k e.1 with
  | some existing => if existing = e.2 then t else t.report (Conflict.of k e.1 existing e.2)
  | none => t.setAction k e.1 e.2

/-- A row behind some attempts: where it was empty, it has the first one. -/
def behind (row : Symbol → Option Action) (entries : List (Symbol × Action)) (x : Symbol) :
    Option Action :=
  (row x).or (entries.lookup x)

theorem behind_nil (row : Symbol → Option Action) : behind row [] = row := by
  funext x
  exact Option.or_none

theorem behind_cons (row : Symbol → Option Action) (e : Symbol × Action)
    (entries : List (Symbol × Action)) :
    behind row (e :: entries) = behind (behind row [e]) entries := by
  funext x
  rw [behind, behind, behind, Option.or_assoc, List.lookup_cons, List.lookup_cons, List.lookup_nil]
  cases x == e.1 with
  | true => rfl
  | false => rfl

/-- Whether an attempt is lost is settled when it is made. -/
theorem lost?_behind (k : Int) (row : Symbol → Option Action) (e : Symbol × Action)
    (entries : List (Symbol × Action)) : lost? k (behind row (e :: entries)) e = lost? k row e := by
  rw [lost?, lost?, behind, List.lookup_cons, beq_self_eq_true]
  cases row e.1 with
  | some w => rfl
  | none =>
      show (if e.2 = e.2 then none else some _) = none
      exact if_pos rfl

/-- One attempt. -/
theorem attempt_fills (ht : t.Shaped) (hk : k < t.stateCount) {e : Symbol × Action}
    (hx : e.1 ∈ t.terminals) (ha : e.2.Fits)
    (hnew : ∀ d ∈ t.conflicts, d.state = k → d.symbol = e.1 → d.candidate.target ≠ e.2.target) :
    Fills k (behind (t.action? k) [e]) (t.goto? k) (lost? k (t.action? k) e).toList t
      (attempt k t e) := by
  have hbehind : ∀ y, behind (t.action? k) [e] y
      = (t.action? k y).or (if y = e.1 then some e.2 else none) := by
    intro y
    rw [behind, List.lookup_cons, List.lookup_nil]
    by_cases hy : y = e.1
    · rw [if_pos hy, beq_iff_eq.mpr hy]
    · rw [if_neg hy, beq_false_of_ne hy]
  rw [attempt, lost?]
  -- an empty cell is written, an equal action is left, a different one is reported
  cases hold : t.action? k e.1 with
  | none =>
      refine (setAction_fills ht hk hx ha).congr ?_ fun _ => rfl
      intro y
      rw [hbehind]
      by_cases hy : y = e.1
      · rw [if_pos hy, if_pos hy, hy, hold]
        rfl
      · rw [if_neg hy, if_neg hy, Option.or_none]
  | some existing =>
      -- what has been there before wins over the new entry
      have hrow : ∀ y, t.action? k y = behind (t.action? k) [e] y := by
        intro y
        rw [hbehind]
        by_cases hy : y = e.1
        · rw [if_pos hy, hy, hold]
          rfl
        · rw [if_neg hy, Option.or_none]
      rw [Option.bind_some]
      dsimp only
      by_cases heq : existing = e.2
      · rw [if_pos heq, if_pos heq]
        exact (Fills.refl ht k).congr hrow fun _ => rfl
      · rw [if_neg heq, if_neg heq]
        exact (report_fills ht k hnew).congr hrow fun _ => rfl

/-- What attempts are told apart by. -/
def key (e : Symbol × Action) : Symbol × Int :=
  (e.1, e.2.target)

/-- Attempts one after the other: in every column the first one wins, if the cell
    was empty, and every other one is reported. -/
theorem foldl_attempt {entries : List (Symbol × Action)} :
    ∀ {t : Table}, t.Shaped → k < t.stateCount → (∀ e ∈ entries, e.1 ∈ t.terminals ∧ e.2.Fits) →
      (entries.map key).Nodup →
      (∀ d ∈ t.conflicts, d.state = k → (d.symbol, d.candidate.target) ∉ entries.map key) →
        Fills k (behind (t.action? k) entries) (t.goto? k)
          (entries.filterMap (lost? k (behind (t.action? k) entries))) t
          (entries.foldl (attempt k) t) := by
  induction entries with
  | nil =>
      intro t ht _ _ _ _
      rw [behind_nil]
      exact Fills.refl ht k
  | cons e entries ih =>
      intro t ht hk hall hnodup hnew
      obtain ⟨hx, ha⟩ := hall e List.mem_cons_self
      obtain ⟨hnot, hnodup⟩ := List.nodup_cons.mp hnodup
      have hfirst := attempt_fills ht hk hx ha (by
        intro d hd hstate hsymbol htarget
        refine hnew d hd hstate ?_
        rw [hsymbol, htarget]
        exact List.mem_cons_self)
      -- the report of this attempt is not repeated by a later one
      have hlater : ∀ d ∈ (attempt k t e).conflicts, d.state = k →
          (d.symbol, d.candidate.target) ∉ entries.map key := by
        intro d hd hstate
        rw [hfirst.conflicts] at hd
        rcases List.mem_append.mp hd with hd | hd
        · intro hmem
          exact hnew d hd hstate (List.mem_cons_of_mem _ hmem)
        · obtain ⟨w, -, -, rfl⟩ := lost?_eq_some_iff.mp (Option.mem_toList.mp hd)
          exact hnot
      have hrest := ih hfirst.shaped (by rw [hfirst.size]; exact hk) (by
        intro e' he'
        rw [hfirst.terminals]
        exact hall e' (List.mem_cons_of_mem _ he')) hnodup hlater
      rw [funext hfirst.action_self, ← behind_cons] at hrest
      have hboth := (hfirst.trans hrest).congr (fun _ => rfl) hfirst.goto_self
      rw [← lost?_behind k _ e entries] at hboth
      rw [List.foldl_cons, List.filterMap_cons]
      cases hone : lost? k (behind (t.action? k) (e :: entries)) e with
      | none =>
          rw [hone] at hboth
          exact hboth
      | some c =>
          rw [hone] at hboth
          exact hboth

/-! ## Moves -/

/-- The shift of a terminal among some moves. -/
def shiftAmong (g : Grammar) (moves : List (Symbol × Nat)) (x : Symbol) : Option Action :=
  if g.isTerminal x then (moves.lookup x).map fun n : Nat => .shift n else none

/-- The state that a nonterminal leads to among some moves. -/
def gotoAmong (g : Grammar) (moves : List (Symbol × Nat)) (x : Symbol) : Option Int :=
  if g.isTerminal x then none else (moves.lookup x).map Int.ofNat

/-- One move. -/
theorem enterMove_fills {g : Grammar} (ht : t.Shaped) (hk : k < t.stateCount) {m : Symbol × Nat}
    (hfits : m.2 < 2147483648) (hterminal : m.1 ∈ g.terminals → m.1 ∈ t.terminals)
    (hnonterminal : m.1 ∉ g.terminals → m.1 ∈ t.nonterminals) :
    Fills k (fun y => (shiftAmong g [m] y).or (t.action? k y))
      (fun y => (gotoAmong g [m] y).or (t.goto? k y)) [] t (t.enterMove g k m) := by
  have hlookup : ∀ y, [m].lookup y = if y = m.1 then some m.2 else none := by
    intro y
    rw [List.lookup_cons, List.lookup_nil]
    by_cases hy : y = m.1
    · rw [if_pos hy, beq_iff_eq.mpr hy]
    · rw [if_neg hy, beq_false_of_ne hy]
  rw [enterMove]
  -- a move is written into one of the two matrices and not looked up in the other
  by_cases hx : g.isTerminal m.1 = true
  · rw [if_pos hx]
    have hwrite := setAction_fills ht hk (hterminal (Grammar.isTerminal_iff.mp hx))
      (show (Action.shift m.2).Fits from ⟨by omega, by omega⟩)
    refine hwrite.congr ?_ ?_
    · intro y
      rw [shiftAmong, hlookup]
      by_cases hy : y = m.1
      · rw [if_pos hy, if_pos hy, hy, if_pos hx]
        rfl
      · rw [if_neg hy, if_neg hy, Option.map_none, ite_self, Option.none_or]
    · intro y
      rw [gotoAmong, hlookup]
      by_cases hy : y = m.1
      · rw [hy, if_pos hx, Option.none_or]
      · rw [if_neg hy, Option.map_none, ite_self, Option.none_or]
  · rw [if_neg hx]
    have hwrite := setGoto_fills ht hk (hnonterminal (mt Grammar.isTerminal_iff.mpr hx)) hfits
    refine hwrite.congr ?_ ?_
    · intro y
      rw [shiftAmong, hlookup]
      by_cases hy : y = m.1
      · rw [hy, if_neg hx, Option.none_or]
      · rw [if_neg hy, Option.map_none, ite_self, Option.none_or]
    · intro y
      rw [gotoAmong, hlookup]
      by_cases hy : y = m.1
      · rw [if_pos hy, if_pos hy, hy, if_neg hx]
        rfl
      · rw [if_neg hy, if_neg hy, Option.map_none, ite_self, Option.none_or]

/-- A later move on the same symbol leads to the same state. -/
theorem lookup_cons_of_unique {m : Symbol × Nat} {moves : List (Symbol × Nat)}
    (huniq : ∀ n, (m.1, n) ∈ m :: moves → n = m.2) (y : Symbol) :
    (m :: moves).lookup y = (moves.lookup y).or ([m].lookup y) := by
  rw [List.lookup_cons, List.lookup_cons, List.lookup_nil]
  by_cases hy : y = m.1
  · rw [beq_iff_eq.mpr hy, hy]
    cases hlookup : moves.lookup m.1 with
    | none => rfl
    | some n =>
        obtain ⟨before, behind, hsplit, -⟩ := List.lookup_eq_some_iff.mp hlookup
        have hmem : (m.1, n) ∈ m :: moves := by
          rw [hsplit]
          simp
        rw [huniq n hmem]
        rfl
  · rw [beq_false_of_ne hy, Option.or_none]

/-- Moves one after the other, if a symbol leads to one state only. -/
theorem foldl_enterMove {g : Grammar} {moves : List (Symbol × Nat)} :
    ∀ {t : Table}, t.Shaped → k < t.stateCount →
      (∀ m ∈ moves, m.2 < 2147483648 ∧ (m.1 ∈ g.terminals → m.1 ∈ t.terminals) ∧
        (m.1 ∉ g.terminals → m.1 ∈ t.nonterminals)) →
      (∀ x n n', (x, n) ∈ moves → (x, n') ∈ moves → n = n') →
        Fills k (fun y => (shiftAmong g moves y).or (t.action? k y))
          (fun y => (gotoAmong g moves y).or (t.goto? k y)) [] t
          (moves.foldl (enterMove g k) t) := by
  induction moves with
  | nil =>
      intro t ht _ _ _
      refine (Fills.refl ht k).congr ?_ ?_
      · intro y
        rw [shiftAmong, List.lookup_nil, Option.map_none, ite_self, Option.none_or]
      · intro y
        rw [gotoAmong, List.lookup_nil, Option.map_none, ite_self, Option.none_or]
  | cons m moves ih =>
      intro t ht hk hall huniq
      obtain ⟨hfits, hterminal, hnonterminal⟩ := hall m List.mem_cons_self
      have hfirst := enterMove_fills ht hk hfits hterminal hnonterminal
      have hrest := ih hfirst.shaped (by rw [hfirst.size]; exact hk) (by
        intro m' hm'
        rw [hfirst.terminals, hfirst.nonterminals]
        exact hall m' (List.mem_cons_of_mem _ hm')) (by
        intro x n n' hn hn'
        exact huniq x n n' (List.mem_cons_of_mem _ hn) (List.mem_cons_of_mem _ hn'))
      -- the list finds the first move of a symbol
      -- and the table keeps the last, which are one
      have hlookup : ∀ y, (m :: moves).lookup y = (moves.lookup y).or ([m].lookup y) :=
        lookup_cons_of_unique fun n hn => huniq m.1 n m.2 hn List.mem_cons_self
      refine (hfirst.trans hrest).congr ?_ ?_
      · intro y
        rw [hfirst.action_self, ← Option.or_assoc, shiftAmong, shiftAmong, shiftAmong, hlookup]
        split
        · rw [Option.map_or]
        · rfl
      · intro y
        rw [hfirst.goto_self, ← Option.or_assoc, gotoAmong, gotoAmong, gotoAmong, hlookup]
        split
        · rfl
        · rw [Option.map_or]

end Filling

end Table

end ShiftReduce
