import ShiftReduce.Proofs.SparseMatrix.Cells
import ShiftReduce.Table.Build

/-! # Table cells — what is written is read back

    A cell of a sparse matrix holds what was stored there last, as long as the
    stored cells are in order, and storing keeps them so.  An action that fits
    into a cell is read back as it was written, since its integer is never the
    one that marks an empty cell.  So writing an action changes one entry of the
    ACTION table and nothing else, and the same holds of the GOTO table. -/

namespace ShiftReduce

namespace SparseMatrix

/-- Every value a cell can hold but the smallest is told apart from the null value. -/
theorem ne_defaultNull_iff {v : Int32} : v ≠ defaultNull ↔ -2147483648 < v.toInt := by
  have hlow := v.le_toInt
  have hnull : defaultNull.toInt = -2147483648 := rfl
  rw [Ne, ← Int32.toInt_inj, hnull]
  omega

/-- The least integer is its own negative; every other one is negated exactly. -/
theorem toInt_neg {v : Int32} (h : v ≠ defaultNull) : (-v).toInt = -v.toInt := by
  have hlow := ne_defaultNull_iff.mp h
  have hhigh := v.toInt_lt
  rw [Int32.toInt_neg, Int.bmod_eq_of_le] <;> omega

end SparseMatrix

namespace Action

/-- The actions that a cell can tell apart from all others and from an empty
    cell. -/
def Fits : Action → Prop
  | .shift s => 0 ≤ s ∧ s < 2147483648
  | .reduce p => 0 ≤ p ∧ p ≤ 2147483645
  | .accept => True

/-- An action that fits is encoded without wrapping around. -/
theorem toInt_encode {a : Action} (h : a.Fits) :
    a.encode.toInt = match a with
      | .shift s => s
      | .reduce p => -(p + 2)
      | .accept => -1 := by
  cases a with
  | shift s => exact Int32.toInt_ofInt_of_le (by have := h.1; omega) (by have := h.2; omega)
  | reduce p =>
      exact Int32.toInt_ofInt_of_le (by have := h.2; omega) (by have := h.1; omega)
  | accept => rfl

/-- An action that fits does not look like an empty cell. -/
theorem encode_ne_null {a : Action} (h : a.Fits) : a.encode ≠ SparseMatrix.defaultNull := by
  rw [SparseMatrix.ne_defaultNull_iff, toInt_encode h]
  cases a with
  | shift s => have := h.1; show -2147483648 < s; omega
  | reduce p => have := h.2; show -2147483648 < -(p + 2); omega
  | accept => show (-2147483648 : Int) < -1; omega

/-- An action that fits is read back as it was written. -/
theorem decode_encode {a : Action} (h : a.Fits) : decode a.encode = a := by
  have hval := toInt_encode h
  rw [decode]
  cases a with
  | shift s =>
      have hnonneg : 0 ≤ (Action.shift s).encode := by
        rw [Int32.le_iff_toInt_le, hval]
        exact h.1
      rw [if_pos hnonneg, hval]
  | reduce p =>
      have hlow := h.1
      have hneg : ¬ 0 ≤ (Action.reduce p).encode := by
        rw [Int32.le_iff_toInt_le, hval]
        show ¬ (0 : Int) ≤ -(p + 2)
        omega
      -- -1 is taken by acceptance, so reductions begin at -2
      have hne : (Action.reduce p).encode ≠ -1 := by
        intro heq
        have := congrArg Int32.toInt heq
        rw [hval] at this
        change -(p + 2) = -1 at this
        omega
      have hminus : (-(Action.reduce p).encode).toInt = p + 2 := by
        rw [SparseMatrix.toInt_neg (encode_ne_null h), hval]
        exact Int.neg_neg (p + 2)
      rw [if_neg hneg, if_neg hne, hminus, Int.add_sub_cancel]
  | accept => rfl

end Action

namespace Table

/-! ## Columns -/

theorem columnFrom_eq_some {x : Symbol} : ∀ {headers : List Symbol} {k j : Nat},
    columnFrom x k headers = some j → k ≤ j ∧ headers[j - k]? = some x := by
  intro headers
  induction headers with
  | nil => intro k j h; exact nomatch h
  | cons y ys ih =>
      intro k j h
      rw [columnFrom] at h
      -- a later column with the same header wins
      cases hrest : columnFrom x (k + 1) ys with
      | some l =>
          rw [hrest] at h
          obtain rfl := Option.some.inj h
          obtain ⟨hle, hget⟩ := ih hrest
          refine ⟨by omega, ?_⟩
          rw [show l - k = (l - (k + 1)) + 1 by omega]
          exact hget
      | none =>
          rw [hrest] at h
          by_cases hy : y = x
          · simp only [if_pos hy] at h
            obtain rfl := Option.some.inj h
            exact ⟨Nat.le_refl _, by simp [hy]⟩
          · simp only [if_neg hy] at h
            exact nomatch h

/-- A column has the header that it was found by. -/
theorem column?_eq_some {headers : List Symbol} {x : Symbol} {j : Nat}
    (h : column? headers x = some j) : headers[j]? = some x :=
  (columnFrom_eq_some h).2

theorem isSome_columnFrom {x : Symbol} : ∀ {headers : List Symbol} {k : Nat},
    x ∈ headers → (columnFrom x k headers).isSome = true := by
  intro headers
  induction headers with
  | nil => intro k h; exact nomatch h
  | cons y ys ih =>
      intro k h
      rw [columnFrom]
      cases hrest : columnFrom x (k + 1) ys with
      | some l => rfl
      | none =>
          have hnot : x ∉ ys := by
            intro hmem
            have := ih (k := k + 1) hmem
            rw [hrest] at this
            exact nomatch this
          have hy : y = x := ((List.mem_cons.mp h).resolve_right hnot).symm
          simp [hy]

/-- Every header has a column. -/
theorem exists_column {headers : List Symbol} {x : Symbol} (h : x ∈ headers) :
    ∃ j, column? headers x = some j :=
  Option.isSome_iff_exists.mp (isSome_columnFrom h)

theorem column?_isNone {headers : List Symbol} {x : Symbol} :
    (column? headers x).isNone = true ↔ x ∉ headers := by
  constructor
  · intro hnone hmem
    obtain ⟨j, hj⟩ := exists_column hmem
    rw [hj] at hnone
    exact nomatch hnone
  · intro hnot
    cases hcol : column? headers x with
    | none => rfl
    | some j => exact absurd (List.mem_of_getElem? (column?_eq_some hcol)) hnot

/-- The columns of headers lie inside a matrix that has as many. -/
theorem inside_of_column {m : SparseMatrix} {headers : List Symbol} {n k j : Nat} {x : Symbol}
    (hrows : m.rows = n) (hcolumns : m.columns = headers.length) (hk : k < n)
    (hj : column? headers x = some j) : m.inside k j = true := by
  obtain ⟨hjlt, -⟩ := List.getElem?_eq_some_iff.mp (column?_eq_some hj)
  simp only [SparseMatrix.inside, hrows, hcolumns, Bool.and_eq_true, decide_eq_true_eq]
  omega

/-! ## Entries -/

/-- The matrices of a table have a row for every state and a column for every
    header, and their cells are in order. -/
structure Shaped (t : Table) : Prop where
  action_ordered : SparseMatrix.Ordered t.actions.cells
  action_rows : t.actions.rows = t.stateCount
  action_columns : t.actions.columns = t.terminals.length
  action_null : t.actions.null = SparseMatrix.defaultNull
  goto_ordered : SparseMatrix.Ordered t.gotos.cells
  goto_rows : t.gotos.rows = t.stateCount
  goto_columns : t.gotos.columns = t.nonterminals.length
  goto_null : t.gotos.null = SparseMatrix.defaultNull

theorem shaped_blank (n : Nat) (terminals nonterminals : List Symbol) :
    (blank n terminals nonterminals).Shaped :=
  ⟨List.Pairwise.nil, rfl, rfl, rfl, List.Pairwise.nil, rfl, rfl, rfl⟩

variable {t : Table}

theorem action?_blank (n : Nat) (terminals nonterminals : List Symbol) (k : Int) (x : Symbol) :
    (blank n terminals nonterminals).action? k x = none := by
  rw [action?]
  split
  · rfl
  · rw [if_neg]
    simp [blank, SparseMatrix.has, SparseMatrix.value, SparseMatrix.find?]

theorem goto?_blank (n : Nat) (terminals nonterminals : List Symbol) (k : Int) (x : Symbol) :
    (blank n terminals nonterminals).goto? k x = none := by
  rw [goto?]
  split
  · rfl
  · rw [if_neg]
    simp [blank, SparseMatrix.has, SparseMatrix.value, SparseMatrix.find?]

/-- What does not change when an action is written. -/
theorem setAction_frame (t : Table) (k : Nat) (x : Symbol) (a : Action) :
    (t.setAction k x a).stateCount = t.stateCount ∧
      (t.setAction k x a).terminals = t.terminals ∧
      (t.setAction k x a).nonterminals = t.nonterminals ∧
      (t.setAction k x a).gotos = t.gotos ∧ (t.setAction k x a).conflicts = t.conflicts := by
  rw [setAction]
  split
  · exact ⟨rfl, rfl, rfl, rfl, rfl⟩
  · exact ⟨rfl, rfl, rfl, rfl, rfl⟩

/-- What does not change when a goto is written. -/
theorem setGoto_frame (t : Table) (k : Nat) (x : Symbol) (target : Nat) :
    (t.setGoto k x target).stateCount = t.stateCount ∧
      (t.setGoto k x target).terminals = t.terminals ∧
      (t.setGoto k x target).nonterminals = t.nonterminals ∧
      (t.setGoto k x target).actions = t.actions ∧
      (t.setGoto k x target).conflicts = t.conflicts := by
  rw [setGoto]
  split
  · exact ⟨rfl, rfl, rfl, rfl, rfl⟩
  · exact ⟨rfl, rfl, rfl, rfl, rfl⟩

/-- What does not change when a conflict is reported. -/
theorem report_frame (t : Table) (c : Conflict) :
    (t.report c).stateCount = t.stateCount ∧ (t.report c).terminals = t.terminals ∧
      (t.report c).nonterminals = t.nonterminals ∧ (t.report c).actions = t.actions ∧
      (t.report c).gotos = t.gotos := by
  rw [report]
  split
  · exact ⟨rfl, rfl, rfl, rfl, rfl⟩
  · exact ⟨rfl, rfl, rfl, rfl, rfl⟩

/-- Writing an action keeps the bounds of the matrices and the order of the cells. -/
theorem Shaped.setAction (h : t.Shaped) (k : Nat) (x : Symbol) (a : Action) :
    (t.setAction k x a).Shaped := by
  rw [Table.setAction]
  split
  · exact h
  · rename_i j _
    obtain ⟨hrows, hcolumns, hnull⟩ := SparseMatrix.put_frame t.actions k j a.encode
    exact ⟨h.action_ordered.put _ _ _, hrows.trans h.action_rows, hcolumns.trans h.action_columns,
      hnull.trans h.action_null, h.goto_ordered, h.goto_rows, h.goto_columns, h.goto_null⟩

theorem Shaped.setGoto (h : t.Shaped) (k : Nat) (x : Symbol) (target : Nat) :
    (t.setGoto k x target).Shaped := by
  rw [Table.setGoto]
  split
  · exact h
  · rename_i j _
    obtain ⟨hrows, hcolumns, hnull⟩ := SparseMatrix.put_frame t.gotos k j (Int32.ofNat target)
    exact ⟨h.action_ordered, h.action_rows, h.action_columns, h.action_null,
      h.goto_ordered.put _ _ _, hrows.trans h.goto_rows, hcolumns.trans h.goto_columns,
      hnull.trans h.goto_null⟩

theorem Shaped.report (h : t.Shaped) (c : Conflict) : (t.report c).Shaped := by
  rw [Table.report]
  split
  · exact h
  · exact ⟨h.action_ordered, h.action_rows, h.action_columns, h.action_null, h.goto_ordered,
      h.goto_rows, h.goto_columns, h.goto_null⟩

/-- Reading through the headers after a value was stored: whatever the values
    stand for, one entry changes. -/
theorem read_put {β : Type} (φ : Int32 → β) {m : SparseMatrix} (hm : SparseMatrix.Ordered m.cells)
    {headers : List Symbol} {k j : Nat} {x : Symbol} (hj : column? headers x = some j)
    (hinside : m.inside k j = true) {v : Int32} (hv : v ≠ m.null) {row : Bool} {l : Int} (hrow : l = k → row = true) (y : Symbol) :
    ((column? headers y).bind fun i =>
        if row && (m.put k j v).has l i then some (φ ((m.put k j v).value l i)) else none)
      = if l = k ∧ y = x then some (φ v)
        else (column? headers y).bind fun i =>
          if row && m.has l i then some (φ (m.value l i)) else none := by
  have hnull := (SparseMatrix.put_frame m k j v).2.2
  cases hcol : column? headers y with
  | none =>
      have hne : ¬ (l = k ∧ y = x) := by
        rintro ⟨-, rfl⟩
        rw [hj] at hcol
        exact nomatch hcol
      rw [if_neg hne]
      rfl
  | some i =>
      -- a column has one header, and a header one column
      have hiff : (l = k ∧ (i : Int) = j) ↔ (l = k ∧ y = x) := by
        constructor
        · rintro ⟨hl, hij⟩
          obtain rfl : i = j := by omega
          exact ⟨hl, Option.some.inj ((column?_eq_some hcol).symm.trans (column?_eq_some hj))⟩
        · rintro ⟨hl, rfl⟩
          exact ⟨hl, by rw [Option.some.inj (hcol.symm.trans hj)]⟩
      rw [Option.bind_some, Option.bind_some, SparseMatrix.has, SparseMatrix.has,
        SparseMatrix.value_put hm hinside, hnull]
      by_cases hly : l = k ∧ y = x
      · rw [if_pos (hiff.mpr hly), if_pos hly, hrow hly.1, if_pos]
        simpa using hv
      · rw [if_neg (mt hiff.mp hly), if_neg hly]

theorem action?_eq_bind (t : Table) (l : Int) (y : Symbol) :
    t.action? l y = (column? t.terminals y).bind fun i =>
      if t.hasRow l && t.actions.has l i then some (Action.decode (t.actions.value l i))
      else none := by
  rw [action?]
  cases column? t.terminals y with
  | none => rfl
  | some i => rfl

theorem goto?_eq_bind (t : Table) (l : Int) (y : Symbol) :
    t.goto? l y = (column? t.nonterminals y).bind fun i =>
      if t.hasRow l && t.gotos.has l i then some (t.gotos.value l i).toInt else none := by
  rw [goto?]
  cases column? t.nonterminals y with
  | none => rfl
  | some i => rfl

theorem hasRow_of_eq {k : Nat} (hk : k < t.stateCount) {l : Int} (hl : l = k) :
    t.hasRow l = true := by
  simp only [hasRow, Bool.and_eq_true, decide_eq_true_eq]
  omega

/-- The ACTION table after an action was written. -/
theorem action?_setAction (h : t.Shaped) {k : Nat} (hk : k < t.stateCount) {x : Symbol}
    (hx : x ∈ t.terminals) {a : Action} (ha : a.Fits) (l : Int) (y : Symbol) :
    (t.setAction k x a).action? l y = if l = k ∧ y = x then some a else t.action? l y := by
  obtain ⟨j, hj⟩ := exists_column hx
  have hinside := inside_of_column h.action_rows h.action_columns hk hj
  have hset : t.setAction k x a = { t with actions := t.actions.put k j a.encode } := by
    rw [setAction, hj]
  have hv : a.encode ≠ t.actions.null := by
    rw [h.action_null]
    exact Action.encode_ne_null ha
  rw [hset, action?_eq_bind, action?_eq_bind]
  have hread := read_put Action.decode h.action_ordered hj hinside hv
    (hasRow_of_eq (t := t) hk (l := l)) y
  rw [Action.decode_encode ha] at hread
  exact hread

/-- The GOTO table after a state was written. -/
theorem goto?_setGoto (h : t.Shaped) {k : Nat} (hk : k < t.stateCount) {x : Symbol}
    (hx : x ∈ t.nonterminals) {target : Nat} (ht : target < 2147483648) (l : Int) (y : Symbol) :
    (t.setGoto k x target).goto? l y
      = if l = k ∧ y = x then some (target : Int) else t.goto? l y := by
  obtain ⟨j, hj⟩ := exists_column hx
  have hinside := inside_of_column h.goto_rows h.goto_columns hk hj
  have hset : t.setGoto k x target
      = { t with gotos := t.gotos.put k j (Int32.ofNat target) } := by
    rw [setGoto, hj]
  have hval : (Int32.ofNat target).toInt = target := Int32.toInt_ofNat_of_lt ht
  have hv : Int32.ofNat target ≠ t.gotos.null := by
    rw [h.goto_null, SparseMatrix.ne_defaultNull_iff, hval]
    omega
  rw [hset, goto?_eq_bind, goto?_eq_bind]
  have hread := read_put Int32.toInt h.goto_ordered hj hinside hv
    (hasRow_of_eq (t := t) hk (l := l)) y
  rw [hval] at hread
  exact hread

/-- Writing an action leaves every goto as it was. -/
theorem goto?_setAction (t : Table) (k : Nat) (x : Symbol) (a : Action) (l : Int) (y : Symbol) :
    (t.setAction k x a).goto? l y = t.goto? l y := by
  obtain ⟨hcount, -, hnon, hgotos, -⟩ := setAction_frame t k x a
  unfold goto? hasRow
  rw [hnon, hgotos, hcount]

theorem action?_setGoto (t : Table) (k : Nat) (x : Symbol) (target : Nat) (l : Int) (y : Symbol) :
    (t.setGoto k x target).action? l y = t.action? l y := by
  obtain ⟨hcount, hterm, -, hactions, -⟩ := setGoto_frame t k x target
  unfold action? hasRow
  rw [hterm, hactions, hcount]

end Table

end ShiftReduce
