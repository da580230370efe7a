import ShiftReduce.Proofs.Grammar.WellFormed
import ShiftReduce.Proofs.Table.Cells

/-! # Writing — how tables come about

    A table begins with empty cells, and it is made by writing actions and gotos
    and by reporting conflicts, in any order, repeatedly and wherever it may be
    (`Written`).  What every single write keeps holds of all tables that are made
    in this way: the stored cells are in order, and the headers are those of the
    beginning.

    The tables of an automaton are made so, and what is written is known: a shift
    for a move over a terminal, a goto for any other move, acceptance for a
    completed item of the start symbol, and reductions by rules of the grammar
    (`written_build`).  This is the one place where filling is taken apart. -/

namespace ShiftReduce

namespace Table

/-- The tables that writing leads to from a first one, where all actions have one
    property and all gotos another at the time they are written. -/
inductive Written (P : Nat → Symbol → Action → Prop) (Q : Nat → Symbol → Nat → Prop)
    (first : Table) : Table → Prop where
  | first : Written P Q first first
  | setAction {t : Table} (h : Written P Q first t) {k : Nat} {x : Symbol} {a : Action}
      (ha : P k x a) : Written P Q first (t.setAction k x a)
  | setGoto {t : Table} (h : Written P Q first t) {k : Nat} {x : Symbol} {target : Nat}
      (hl : Q k x target) : Written P Q first (t.setGoto k x target)
  | report {t : Table} (h : Written P Q first t) (c : Conflict) : Written P Q first (t.report c)

namespace Written

variable {P : Nat → Symbol → Action → Prop} {Q : Nat → Symbol → Nat → Prop} {first t : Table}
  {k : Nat}

/-! ## What writing keeps -/

/-- Every write keeps the bounds of the matrices and the order of their cells. -/
theorem shaped (h : Written P Q first t) (hfirst : first.Shaped) : t.Shaped := by
  induction h with
  | first => exact hfirst
  | setAction _ _ ih => exact ih.setAction _ _ _
  | setGoto _ _ ih => exact ih.setGoto _ _ _
  | report _ c ih => exact ih.report c

theorem stateCount_eq (h : Written P Q first t) : t.stateCount = first.stateCount := by
  induction h with
  | first => rfl
  | setAction _ _ ih => rw [(setAction_frame ..).1, ih]
  | setGoto _ _ ih => rw [(setGoto_frame ..).1, ih]
  | report _ c ih => rw [(report_frame _ c).1, ih]

theorem terminals_eq (h : Written P Q first t) : t.terminals = first.terminals := by
  induction h with
  | first => rfl
  | setAction _ _ ih => rw [(setAction_frame ..).2.1, ih]
  | setGoto _ _ ih => rw [(setGoto_frame ..).2.1, ih]
  | report _ c ih => rw [(report_frame _ c).2.1, ih]

/-! ## Filling is writing -/

/-- Entering a transition writes a shift if its symbol is a terminal, and a goto
    otherwise. -/
theorem enterMove {g : Grammar} {e : Symbol × Nat} (h : Written P Q first t)
    (hshift : e.1 ∈ g.terminals → P k e.1 (.shift e.2)) (hgoto : Q k e.1 e.2) :
    Written P Q first (t.enterMove g k e) := by
  rw [Table.enterMove]
  split
  · rename_i hterminal
    exact h.setAction (hshift (Grammar.isTerminal_iff.mp hterminal))
  · exact h.setGoto hgoto

/-- Acceptance is always written; what stands in the cell already is reported first. -/
theorem enterAccept (h : Written P Q first t) (haccept : P k Symbol.endMarker .accept) :
    Written P Q first (t.enterAccept k) := by
  rw [Table.enterAccept]
  refine setAction ?_ haccept
  split
  · split
    · exact h
    · exact h.report _
  · exact h

/-- A reduction is written into an empty cell only. Against another action it is
    reported, and against itself nothing happens. -/
theorem enterReduction {p : Int} {x : Symbol} (h : Written P Q first t)
    (hreduce : P k x (.reduce p)) : Written P Q first (t.enterReduction p k x) := by
  rw [Table.enterReduction]
  split
  · exact h
  · split
    · split
      · exact h
      · exact h.report _
    · exact h.setAction hreduce

/-- A complete item accepts or reduces by a rule of the grammar; an item that is not
    complete writes nothing. -/
theorem enterItem {a : Analysis} {i : Item} (h : Written P Q first t)
    (haccept : ∀ r, a.grammar.rule? i.rule = some r → i.next? a.grammar = none →
      r.lhs = a.grammar.start → P k Symbol.endMarker .accept)
    (hreduce : ∀ r ∈ a.grammar.rules, ∀ x, P k x (.reduce r.id)) :
    Written P Q first (t.enterItem a k i) := by
  rw [Table.enterItem]
  split
  · exact h
  · rename_i r hr
    split
    · exact h
    · rename_i hcompleted
      have hnext : i.next? a.grammar = none := by
        rw [← Option.isNone_iff_eq_none]
        simpa [Item.isReduction] using hcompleted
      split
      · rename_i hlhs
        exact h.enterAccept (haccept r hr hnext hlhs)
      · refine List.foldlRecOn _ _ h ?_
        intro u hu x _
        exact hu.enterReduction (hreduce r (Grammar.mem_of_rule? hr) x)

end Written

/-- The tables of an automaton are made by writing what its moves and its completed
    items give. -/
theorem written_build {P : Nat → Symbol → Action → Prop} {Q : Nat → Symbol → Nat → Prop}
    {a : Analysis} {m : Automaton}
    (hshift : ∀ st ∈ m.states, ∀ e ∈ st.transitions, e.1 ∈ a.grammar.terminals →
      P st.id e.1 (.shift e.2))
    (hgoto : ∀ st ∈ m.states, ∀ e ∈ st.transitions, Q st.id e.1 e.2)
    (haccept : ∀ st ∈ m.states, ∀ i ∈ st.items, ∀ r, a.grammar.rule? i.rule = some r →
      i.next? a.grammar = none → r.lhs = a.grammar.start → P st.id Symbol.endMarker .accept)
    (hreduce : ∀ st ∈ m.states, ∀ r ∈ a.grammar.rules, ∀ x, P st.id x (.reduce r.id)) :
    Written P Q (blank m.size (a.grammar.terminals ++ [Symbol.endMarker])
      (a.grammar.nonterminals.filter fun x => x != a.grammar.start)) (build a m) := by
  refine List.foldlRecOn _ _ .first ?_
  intro t ht st hst
  refine List.foldlRecOn _ _ ?_ ?_
  · refine List.foldlRecOn _ _ ht ?_
    intro u hu e he
    exact hu.enterMove (hshift st hst e he) (hgoto st hst e he)
  · intro u hu i hi
    exact hu.enterItem (haccept st hst i (mem_sortBy.mp hi)) (hreduce st hst)

/-- Filling the tables leaves their headers alone. -/
theorem terminals_build (a : Analysis) (m : Automaton) :
    (build a m).terminals = a.grammar.terminals ++ [Symbol.endMarker] := by
  have hwritten := written_build (P := fun _ _ _ => True) (Q := fun _ _ _ => True) (a := a) (m := m)
    (fun _ _ _ _ _ => trivial) (fun _ _ _ _ => trivial) (fun _ _ _ _ _ _ _ _ => trivial)
    (fun _ _ _ _ _ => trivial)
  exact hwritten.terminals_eq

end Table

end ShiftReduce
