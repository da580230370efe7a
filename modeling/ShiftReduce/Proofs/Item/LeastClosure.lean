import ShiftReduce.Proofs.Item.Closure

/-! # Least closures — the smallest closed set around a set of items

    A set of items is closed if, with every item that expects a nonterminal, it
    has the items of all rules of that nonterminal with the dot in front.  The
    closure of a set is closed, and every closed set that has the items of the
    set has the items of the closure.  Two laws follow from this alone: a closed
    set is its own closure, and a greater set has a greater closure.

    Nothing is asked of the items but that their dots are not before the
    beginning of a body: rules may be unknown and dots behind the end. -/

namespace ShiftReduce

namespace ItemSet

variable {g : Grammar} {s c : ItemSet}

/-- With an item that expects a nonterminal, the items of all its rules with the
    dot in front are there, too. -/
def Closed (g : Grammar) (s : ItemSet) : Prop :=
  ∀ i ∈ s, ∀ b, i.next? g = some b → b ∈ g.nonterminals →
    ∀ r ∈ g.rules, r.lhs = b → ⟨r.id, 0⟩ ∈ s

/-- Being closed is having what the items ask for. -/
theorem closed_iff : Closed g s ↔ ∀ i ∈ s, ∀ j ∈ i.demands g, j ∈ s := by
  constructor
  · intro h i hi j hj
    obtain ⟨b, hb, hn, r, hr, hlhs, rfl⟩ := Item.mem_demands.mp hj
    exact h i hi b hb hn r hr hlhs
  · intro h i hi b hb hn r hr hlhs
    exact h i hi _ (Item.mem_demands.mpr ⟨b, hb, hn, r, hr, hlhs, rfl⟩)

/-- The least closed set around a set: the items of the set in their order, and
    behind them only what is forced, each item once. -/
structure LeastClosed (g : Grammar) (s c : ItemSet) : Prop where
  begins : s <+: c
  nodup : c.Nodup
  closed : Closed g c
  least : ∀ t : ItemSet, s ⊆ t → Closed g t → c ⊆ t

/-- The closure is the least closed set around the given items. -/
theorem leastClosed_closure (hs : s.Nodup) : LeastClosed g s (closure g s) := by
  obtain ⟨hnodup, hclosed⟩ := closure_closed g s
  refine ⟨?_, hnodup, closed_iff.mpr hclosed, ?_⟩
  · have hbegins := ofList_prefix_closure g s
    rwa [GrowingSet.ofList_items hs] at hbegins
  · intro t hsub ht
    exact closure_induct (P := (· ∈ t)) (fun i hi => hsub hi) (closed_iff.mp ht)

/-- A closed set is its own closure, in the same order. -/
theorem closure_eq_self (hs : s.Nodup) (hclosed : Closed g s) : closure g s = s := by
  have hleast := leastClosed_closure (g := g) hs
  -- the closure begins with the set and has no more elements than it
  have hlen : (closure g s).length ≤ s.length :=
    (hleast.nodup.subperm (hleast.least s (List.Subset.refl s) hclosed)).length_le
  exact (hleast.begins.eq_of_length_le hlen).symm

/-- A greater set has a greater closure. -/
theorem closure_mono {t : ItemSet} (h : s ⊆ t) : closure g s ⊆ closure g t :=
  closure_induct (P := (· ∈ closure g t)) (fun _ hi => mem_closure_of_mem (h hi))
    (closure_closed g t).2

/-- An item with the dot not before the beginning can be read. -/
theorem isReadable_of_dot {i : Item} (hdot : 0 ≤ i.dot) : i.isReadable g = true := by
  rw [Item.isReadable]
  split
  · exact Bool.or_eq_true_iff.mpr (Or.inr (decide_eq_true hdot))
  · rfl

/-- If the items of a set can be read, then so can all items of the closure. -/
theorem readable_closure (hdots : ∀ i ∈ s, 0 ≤ i.dot) :
    ∀ i ∈ closure g s, i.isReadable g = true := by
  refine fun i hi => isReadable_of_dot (closure_induct hdots ?_ i hi)
  intro i _ j hj
  obtain ⟨b, -, -, r, -, -, rfl⟩ := Item.mem_demands.mp hj
  exact Int.le_refl 0

/-- **The closure is the least closed set.**  For every grammar and every set of
    items, whatever rules and positions they name, the closure is defined, all its
    items can be read, and the loop that goes once over a copy of the set while it
    grows ends by itself with the items of the closure.  These are the least closed
    set around the items; closing once more changes nothing, not even the order, and
    a greater set has a greater closure. -/
theorem closure_exact (g : Grammar) (set : GrowingSet Item) (hset : set.Coherent)
    (hdots : ∀ i ∈ set.toList, 0 ≤ i.dot) :
    closure? g set.toList = some (closure g set.toList) ∧
      (∀ i ∈ closure g set.toList, i.isReadable g = true) ∧
      (∃ t, GrowingSet.Exhausts (Item.demands g) set.copy.restart t ∧
        t.toList = closure g set.toList) ∧
      LeastClosed g set.toList (closure g set.toList) ∧
      closure g (closure g set.toList) = closure g set.toList ∧
      ∀ t : ItemSet, set.toList ⊆ t → closure g set.toList ⊆ closure g t := by
  have hleast := leastClosed_closure (g := g) hset.nodup
  refine ⟨if_pos ?_, readable_closure hdots, ?_, hleast,
    closure_eq_self hleast.nodup hleast.closed, fun t ht => closure_mono ht⟩
  · exact List.all_eq_true.mpr fun i hi => isReadable_of_dot (hdots i hi)
  · rw [GrowingSet.copy, GrowingSet.restart_ofList]
    exact (closure_exhausts g set.toList).2

/-- A grammar of sums. -/
def sumsGrammar : Grammar :=
  { name := "sums", start := "S", terminals := ["a", "+"], nonterminals := ["S", "E"]
    rules := [{ id := 0, lhs := "S", body := ["E"] }, { id := 1, lhs := "E", body := ["E", "+", "a"] },
      { id := 2, lhs := "E", body := ["a"] }] }

/-- An item with the dot far behind its body, one of an unknown rule, and one that
    asks for two more. -/
def strayItems : GrowingSet Item :=
  GrowingSet.ofList [⟨2, 5⟩, ⟨7, 3⟩, ⟨0, 0⟩]

/-- Items whose rule or point does not exist stay in the closure and demand nothing. -/
theorem closure_exact_stray :
    strayItems.Coherent ∧ (∀ i ∈ strayItems.toList, 0 ≤ i.dot) ∧
      LeastClosed sumsGrammar strayItems.toList [⟨2, 5⟩, ⟨7, 3⟩, ⟨0, 0⟩, ⟨1, 0⟩, ⟨2, 0⟩] := by
  have hset : strayItems.Coherent := GrowingSet.coherent_ofList _
  have hdots : ∀ i ∈ strayItems.toList, 0 ≤ i.dot := by decide
  have hitems : closure sumsGrammar strayItems.toList
      = [⟨2, 5⟩, ⟨7, 3⟩, ⟨0, 0⟩, ⟨1, 0⟩, ⟨2, 0⟩] := by decide
  have hleast := (closure_exact sumsGrammar strayItems hset hdots).2.2.2.1
  rw [hitems] at hleast
  exact ⟨hset, hdots, hleast⟩

end ItemSet

end ShiftReduce
