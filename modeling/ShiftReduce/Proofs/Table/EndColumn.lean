import ShiftReduce.Proofs.Table.Provenance

/-! # The end column — nothing is shifted at the end of the input

    The end marker is no terminal of a grammar, so the moves of the automaton
    write no shift into its column.  Acceptance and reductions are read back as
    such as long as the rules have numbers that fit into a cell.  The number of
    states does not matter: a shift to a state whose number does not fit is read
    back as something else, but in another column.  Since there are entries below
    headers only, nothing but terminals is shifted. -/

namespace ShiftReduce

namespace Table

variable {t : Table}

/-- No cell of the end column is read as a shift. -/
def EndsClosed (t : Table) : Prop :=
  ∀ k l, t.action? k Symbol.endMarker ≠ some (.shift l)

/-- The tables of a checked grammar shift nothing at the end of the input. -/
theorem build_endsClosed {a : Analysis} (hg : a.grammar.Checked)
    (hsize : a.grammar.size ≤ 2147483646) (m : Automaton) : (build a m).EndsClosed := by
  have hsourced : (build a m).Sourced
      (fun _ x b => x = Symbol.endMarker → ∀ l, b ≠ .shift l) (fun _ _ _ => True) := by
    refine sourced_build ?_ (fun _ _ _ _ => trivial) ?_ ?_
    · intro st _ e _ hterminal hend
      exact absurd hend (hg.ne_of_mem (Or.inl hterminal)).2.1
    · intro st _ i _ r _ _ _ _ l
      exact nofun
    · intro st _ r hr x _ l
      rw [Action.decode_encode (fits_of_rule hg hsize hr)]
      exact nofun
  intro k l hread
  obtain ⟨n, -, hclosed⟩ := hsourced.action k _ _ hread
  exact hclosed rfl l rfl

/-- A rule number that does not fit is read back as a shift. -/
example : Action.decode (Action.reduce 2147483647).encode = .shift 2147483647 := by decide

/-! ## Headers -/

/-- There are entries below headers only. -/
theorem mem_terminals_of_action? {k : Int} {x : Symbol} {a : Action} (h : t.action? k x = some a) :
    x ∈ t.terminals := by
  rw [action?_eq_bind] at h
  obtain ⟨j, hj, -⟩ := Option.bind_eq_some_iff.mp h
  exact List.mem_of_getElem? (column?_eq_some hj)

/-- Nothing but terminals is shifted. -/
theorem EndsClosed.terminal {a : Analysis} {m : Automaton} (h : (build a m).EndsClosed) {k l : Int}
    {x : Symbol} (hshift : (build a m).action? k x = some (.shift l)) :
    x ∈ a.grammar.terminals := by
  have hmem := mem_terminals_of_action? hshift
  rw [terminals_build] at hmem
  rcases List.mem_append.mp hmem with hmem | hmem
  · exact hmem
  · rw [List.mem_singleton.mp hmem] at hshift
    exact absurd hshift (h k l)

end Table

end ShiftReduce
