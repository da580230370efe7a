import ShiftReduce.Item.Closure
import ShiftReduce.Proofs.Grammar.WellFormed
import ShiftReduce.Proofs.GrowingSet.Closing

/-! # Closures — closed, and nothing more than that

    The closure of an item set is one pass over a set that grows meanwhile.
    The pass has an invariant: what was handed out has got what it asks for.
    Since the set stays inside a finite stock, the fuel lets the pass hand out
    everything, so the closure is closed; and it has only members that are
    forced by the set it began with. -/

namespace ShiftReduce

/-- An item demands the rules of the nonterminal that it has next. -/
theorem Item.mem_demands {g : Grammar} {i j : Item} :
    j ∈ i.demands g ↔ ∃ b, i.next? g = some b ∧ b ∈ g.nonterminals ∧
      ∃ r ∈ g.rules, r.lhs = b ∧ j = ⟨r.id, 0⟩ := by
  rw [demands]
  cases i.next? g with
  | none => simp
  | some b =>
      by_cases hb : b ∈ g.nonterminals
      · simp only [Grammar.isNonterminal_iff.mpr hb, if_true, List.mem_map, Grammar.rulesOf,
          List.mem_filter, beq_iff_eq]
        constructor
        · rintro ⟨r, ⟨hr, hlhs⟩, rfl⟩
          exact ⟨b, rfl, hb, r, hr, hlhs, rfl⟩
        · rintro ⟨b', hb', -, r, hr, hlhs, rfl⟩
          exact ⟨r, ⟨hr, hlhs.trans (Option.some.inj hb').symm⟩, rfl⟩
      · have hfalse : g.isNonterminal b = false :=
          Bool.eq_false_iff.mpr (mt Grammar.isNonterminal_iff.mp hb)
        simp only [hfalse, Bool.false_eq_true, if_false, List.not_mem_nil, false_iff]
        rintro ⟨b', hb', hmem, -⟩
        exact hb (Option.some.inj hb' ▸ hmem)

namespace ItemSet

variable {g : Grammar} {s : ItemSet}

/-- The items that a closure can have. -/
def stock (g : Grammar) (s : ItemSet) : List Item :=
  s ++ g.rules.map fun r => ⟨r.id, 0⟩

/-- All items that can come up demand each other only. -/
theorem stocked (g : Grammar) (s : ItemSet) :
    GrowingSet.Stocked (Item.demands g) (stock g s) := by
  intro i _ j hj
  obtain ⟨b, -, -, r, hr, -, rfl⟩ := Item.mem_demands.mp hj
  exact List.mem_append_right _ (List.mem_map.mpr ⟨r, hr, rfl⟩)

/-- There are at most as many as given items and rules. -/
theorem length_stock (g : Grammar) (s : ItemSet) : (stock g s).length = s.length + g.size := by
  simp [stock, Grammar.size]

/-- The pass begins with nothing handed out. -/
theorem served_ofList (g : Grammar) (s : ItemSet) :
    GrowingSet.Served (Item.demands g) (GrowingSet.ofList s) := by
  have h := (GrowingSet.coherent_ofList s).served_restart (Item.demands g)
  rwa [GrowingSet.restart_ofList] at h

/-- The pass serves all its items, and so does the loop without a bound. -/
theorem closure_exhausts (g : Grammar) (s : ItemSet) :
    (∃ t, GrowingSet.Served (Item.demands g) t ∧ t.cursor = t.size ∧ t.items = closure g s) ∧
      ∃ t, GrowingSet.Exhausts (Item.demands g) (GrowingSet.ofList s) t ∧
        t.items = closure g s := by
  refine (served_ofList g s).closeUnder (stocked g s) _ ?_ ?_
  · intro i hi
    exact List.mem_append_left _ (GrowingSet.mem_ofList.mp hi)
  · rw [length_stock]
    exact Nat.le_add_right _ _

/-- The closure has no item twice and what its items ask for. -/
theorem closure_closed (g : Grammar) (s : ItemSet) :
    (closure g s).Nodup ∧ ∀ i ∈ closure g s, ∀ j ∈ i.demands g, j ∈ closure g s := by
  obtain ⟨⟨t, ht, hend, hitems⟩, -⟩ := closure_exhausts g s
  rw [← hitems]
  exact ⟨ht.coherent.nodup, ht.closed hend⟩

/-- The closure begins with the items of the set, and what holds of these and of
    all that items ask for holds of it. -/
theorem closure_extends {P : Item → Prop} (hs : ∀ i ∈ s, P i)
    (hstep : ∀ i, P i → ∀ j ∈ i.demands g, P j) :
    (GrowingSet.ofList s).items <+: closure g s ∧ ∀ i ∈ closure g s, P i :=
  (served_ofList g s).closeUnder_induct hstep _ fun i hi => hs i (GrowingSet.mem_ofList.mp hi)

/-- What holds of the given items and passes on to what they demand holds of the
    closure. -/
theorem closure_induct {P : Item → Prop} (hs : ∀ i ∈ s, P i)
    (hstep : ∀ i, P i → ∀ j ∈ i.demands g, P j) : ∀ i ∈ closure g s, P i :=
  (closure_extends hs hstep).2

/-- The given items stand in front. -/
theorem ofList_prefix_closure (g : Grammar) (s : ItemSet) :
    (GrowingSet.ofList s).items <+: closure g s :=
  (closure_extends (P := fun _ => True) (fun _ _ => trivial) fun _ _ _ _ => trivial).1

theorem mem_closure_of_mem {i : Item} (h : i ∈ s) : i ∈ closure g s :=
  (ofList_prefix_closure g s).subset (GrowingSet.mem_ofList.mpr h)

/-- Only the empty set has an empty closure. -/
theorem closure_eq_nil : closure g s = [] ↔ s = [] := by
  constructor
  · intro h
    refine List.eq_nil_iff_forall_not_mem.mpr ?_
    intro i hi
    have hmem := mem_closure_of_mem (g := g) hi
    rw [h] at hmem
    exact nomatch hmem
  · rintro rfl
    refine List.eq_nil_iff_forall_not_mem.mpr ?_
    exact closure_induct (P := fun _ => False) (fun i hi => nomatch hi) fun _ h => h.elim

end ItemSet

end ShiftReduce
