import ShiftReduce.Proofs.Table.Writing

/-! # Provenance — every entry of a table has been written by somebody

    Whether or not a cell is inside the tables and a number fits into it, what is
    read is what was there before or what the cell makes of what was written.  So a
    property of entries that holds of all that is written while the tables are filled
    holds of all that is read from them (`sourced_build`).  Nothing is said of the
    grammar: it may have symbols that are terminals and nonterminals, and items may
    compete for a cell. -/

namespace ShiftReduce

namespace Table

variable {t : Table}

/-! ## Reading behind a write -/

/-- Reading through the headers after a value was stored, wherever it was stored. -/
theorem read_of_put {β : Type} (φ : Int32 → β) {m : SparseMatrix}
    (hm : SparseMatrix.Ordered m.cells) {headers : List Symbol} {k j : Nat} {x : Symbol}
    (hj : column? headers x = some j) {v : Int32} {row : Bool} {l : Int} {y : Symbol} {b : β}
    (h : ((column? headers y).bind fun i =>
      if row && (m.put k j v).has l i then some (φ ((m.put k j v).value l i)) else none) = some b) :
    ((column? headers y).bind fun i =>
        if row && m.has l i then some (φ (m.value l i)) else none) = some b ∨
      (l = k ∧ y = x ∧ b = φ v) := by
  by_cases hinside : m.inside k j = true
  · obtain ⟨i, hi, hread⟩ := Option.bind_eq_some_iff.mp h
    rw [hi, Option.bind_some]
    rw [SparseMatrix.has, SparseMatrix.value_put hm hinside,
      (SparseMatrix.put_frame m k j v).2.2] at hread
    by_cases hcell : l = k ∧ (i : Int) = j
    · -- the cell that was written is read, so its header is the one of the write
      obtain rfl : i = j := by omega
      rw [if_pos hcell] at hread
      refine Or.inr ⟨hcell.1, Option.some.inj ((column?_eq_some hi).symm.trans (column?_eq_some hj)), ?_⟩
      split at hread
      · exact (Option.some.inj hread).symm
      · cases hread
    · rw [if_neg hcell] at hread
      exact Or.inl hread
  · rw [SparseMatrix.put, if_neg hinside] at h
    exact Or.inl h

/-- What is read after a write was there before or is what was written. -/
theorem action?_of_setAction (ht : t.Shaped) {k : Nat} {x y : Symbol} {a b : Action} {l : Int}
    (h : (t.setAction k x a).action? l y = some b) :
    t.action? l y = some b ∨ (l = k ∧ y = x ∧ b = Action.decode a.encode) := by
  rw [setAction] at h
  cases hj : column? t.terminals x with
  | none =>
      rw [hj] at h
      exact Or.inl h
  | some j =>
      rw [hj] at h
      rw [action?_eq_bind] at h ⊢
      exact read_of_put Action.decode ht.action_ordered hj h

theorem goto?_of_setGoto (ht : t.Shaped) {k target : Nat} {x y : Symbol} {l b : Int}
    (h : (t.setGoto k x target).goto? l y = some b) :
    t.goto? l y = some b ∨ (l = k ∧ y = x ∧ b = (Int32.ofNat target).toInt) := by
  rw [setGoto] at h
  cases hj : column? t.nonterminals x with
  | none =>
      rw [hj] at h
      exact Or.inl h
  | some j =>
      rw [hj] at h
      rw [goto?_eq_bind] at h ⊢
      exact read_of_put Int32.toInt ht.goto_ordered hj h

/-- The rules of a grammar that is not too large have numbers that fit into cells. -/
theorem fits_of_rule {g : Grammar} (hg : g.Checked) (hsize : g.size ≤ 2147483646) {r : Production}
    (hr : r ∈ g.rules) : (Action.reduce r.id).Fits := by
  obtain ⟨hlow, hhigh⟩ := hg.id_range hr
  exact ⟨hlow, by omega⟩

/-! ## Properties of entries -/

/-- Tables in which every action has one property and every goto another. -/
structure Sourced (P : Nat → Symbol → Action → Prop) (Q : Nat → Symbol → Int → Prop) (t : Table) :
    Prop where
  shaped : t.Shaped
  action : ∀ (k : Int) (x : Symbol) (a : Action), t.action? k x = some a →
    ∃ n : Nat, k = n ∧ P n x a
  goto : ∀ (k : Int) (x : Symbol) (l : Int), t.goto? k x = some l → ∃ n : Nat, k = n ∧ Q n x l

/-- An empty table has nothing to account for. -/
theorem sourced_blank (P : Nat → Symbol → Action → Prop) (Q : Nat → Symbol → Int → Prop) (n : Nat)
    (terminals nonterminals : List Symbol) : (blank n terminals nonterminals).Sourced P Q where
  shaped := shaped_blank n terminals nonterminals
  action := by
    intro k x a h
    rw [action?_blank] at h
    cases h
  goto := by
    intro k x l h
    rw [goto?_blank] at h
    cases h

namespace Sourced

variable {P : Nat → Symbol → Action → Prop} {Q : Nat → Symbol → Int → Prop} {n : Nat} {x : Symbol}

theorem setAction (h : t.Sourced P Q) {a : Action} (ha : P n x (Action.decode a.encode)) :
    (t.setAction n x a).Sourced P Q where
  shaped := h.shaped.setAction n x a
  action := by
    intro k y b hread
    rcases action?_of_setAction h.shaped hread with hold | ⟨rfl, rfl, rfl⟩
    · exact h.action k y b hold
    · exact ⟨n, rfl, ha⟩
  goto := by
    intro k y l hread
    rw [goto?_setAction] at hread
    exact h.goto k y l hread

theorem setGoto (h : t.Sourced P Q) {l : Nat} (hl : Q n x (Int32.ofNat l).toInt) :
    (t.setGoto n x l).Sourced P Q where
  shaped := h.shaped.setGoto n x l
  action := by
    intro k y b hread
    rw [action?_setGoto] at hread
    exact h.action k y b hread
  goto := by
    intro k y b hread
    rcases goto?_of_setGoto h.shaped hread with hold | ⟨rfl, rfl, rfl⟩
    · exact h.goto k y b hold
    · exact ⟨n, rfl, hl⟩

theorem report (h : t.Sourced P Q) (c : Conflict) : (t.report c).Sourced P Q := by
  have hshaped := h.shaped.report c
  rw [Table.report] at hshaped ⊢
  split
  · exact h
  · rename_i hnew
    rw [if_neg hnew] at hshaped
    exact ⟨hshaped, h.action, h.goto⟩

end Sourced

/-- What a cell makes of all that is written is all that is read. -/
theorem Written.sourced {P : Nat → Symbol → Action → Prop} {Q : Nat → Symbol → Int → Prop}
    {first : Table}
    (h : Written (fun k x a => P k x (Action.decode a.encode))
      (fun k x l => Q k x (Int32.ofNat l).toInt) first t)
    (hfirst : first.Sourced P Q) : t.Sourced P Q := by
  induction h with
  | first => exact hfirst
  | setAction _ ha ih => exact ih.setAction ha
  | setGoto _ hl ih => exact ih.setGoto hl
  | report _ c ih => exact ih.report c

/-- What holds of all that is written holds of all that is read. -/
theorem sourced_build {P : Nat → Symbol → Action → Prop} {Q : Nat → Symbol → Int → Prop}
    {a : Analysis} {m : Automaton}
    (hshift : ∀ st ∈ m.states, ∀ e ∈ st.transitions, e.1 ∈ a.grammar.terminals →
      P st.id e.1 (Action.decode (Action.shift e.2).encode))
    (hgoto : ∀ st ∈ m.states, ∀ e ∈ st.transitions, Q st.id e.1 (Int32.ofNat e.2).toInt)
    (haccept : ∀ st ∈ m.states, ∀ i ∈ st.items, ∀ r, a.grammar.rule? i.rule = some r →
      i.next? a.grammar = none → r.lhs = a.grammar.start → P st.id Symbol.endMarker .accept)
    (hreduce : ∀ st ∈ m.states, ∀ r ∈ a.grammar.rules, ∀ x,
      P st.id x (Action.decode (Action.reduce r.id).encode)) : (build a m).Sourced P Q := by
  have haccept' : ∀ st ∈ m.states, ∀ i ∈ st.items, ∀ r, a.grammar.rule? i.rule = some r →
      i.next? a.grammar = none → r.lhs = a.grammar.start →
        P st.id Symbol.endMarker (Action.decode Action.accept.encode) := by
    rw [Action.decode_encode (a := .accept) trivial]
    exact haccept
  have hwritten := written_build (P := fun k x b => P k x (Action.decode b.encode))
    (Q := fun k x l => Q k x (Int32.ofNat l).toInt) hshift hgoto haccept' hreduce
  exact hwritten.sourced (sourced_blank P Q _ _ _)

end Table

end ShiftReduce
