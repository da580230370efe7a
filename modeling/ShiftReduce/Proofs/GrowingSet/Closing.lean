import ShiftReduce.Proofs.GrowingSet.Coherence

/-! # Closing a set — one pass over a set that grows meanwhile

    The pass hands out elements and adds what each of them demands.  It has an
    invariant: what was handed out has been served, so that its demands are
    elements, too.  As long as the set stays inside a finite stock, every round
    takes one element off what is left of the stock; therefore the loop ends by
    itself, and with fuel for the stock the pass gives what the loop gives. -/

namespace ShiftReduce

namespace GrowingSet

variable {α : Type} [DecidableEq α] {demands : α → List α} {s : GrowingSet α}

/-- The loop without a bound: elements are handed out until there are no more. -/
inductive Exhausts (demands : α → List α) : GrowingSet α → GrowingSet α → Prop where
  | done {s t : GrowingSet α} (h : s.advance = (false, t)) : Exhausts demands s t
  | visit {s t u : GrowingSet α} {x : α} (h : s.advance = (true, t)) (hx : t.current? = some x)
      (hrest : Exhausts demands (t.absorb (ofList (demands x))) u) : Exhausts demands s u

/-- What was handed out has got what it asks for. -/
structure Served (demands : α → List α) (s : GrowingSet α) : Prop where
  coherent : s.Coherent
  handed : s.cursor ≤ s.size
  served : ∀ k < s.cursor, ∀ x, s.items[k]? = some x → ∀ y ∈ demands x, y ∈ s.items

/-- The set after one more element has been handed out and served. -/
def serve (demands : α → List α) (s : GrowingSet α) (x : α) : GrowingSet α :=
  { s with cursor := s.cursor + 1 }.absorb (ofList (demands x))

/-- A set of which nothing was handed out is served. -/
theorem Coherent.served_restart (h : s.Coherent) (demands : α → List α) :
    Served demands s.restart :=
  ⟨h.restart, Nat.zero_le _, fun k hk => absurd hk (Nat.not_lt_zero k)⟩

/-- A set that has just been made has its cursor in front. -/
theorem restart_ofList (xs : List α) : (ofList xs).restart = ofList xs := by
  show { ofList xs with cursor := 0 } = ofList xs
  rw [← show (ofList xs).cursor = 0 from Coherent.addAll_cursor empty xs]

/-- If all elements were handed out, the set has all its demands. -/
theorem Served.closed (h : Served demands s) (hend : s.cursor = s.size) :
    ∀ x ∈ s.items, ∀ y ∈ demands x, y ∈ s.items := by
  intro x hx
  obtain ⟨k, hk⟩ := List.mem_iff_getElem?.mp hx
  obtain ⟨hlt, -⟩ := List.getElem?_eq_some_iff.mp hk
  exact h.served k (by rw [hend]; exact hlt) x hk

/-- What serving an element adds. -/
theorem Served.serve_extends (h : Served demands s) (hlt : s.cursor < s.size) (x : α) :
    (serve demands s x).Coherent ∧ (serve demands s x).cursor = s.cursor + 1 ∧
      s.items <+: (serve demands s x).items ∧
      ∀ y, y ∈ (serve demands s x).items ↔ y ∈ s.items ∨ y ∈ demands x := by
  have hmoved : Coherent { s with cursor := s.cursor + 1 } :=
    ⟨h.coherent.nodup, h.coherent.indexed, Nat.le_succ_of_le hlt⟩
  obtain ⟨hcoherent, hcursor, hitems⟩ := hmoved.absorb_eq (coherent_ofList (demands x))
  refine ⟨hcoherent, hcursor, ?_, ?_⟩
  · rw [serve, hitems]
    exact List.prefix_append _ _
  · intro y
    rw [serve, hitems, List.mem_append, List.mem_filter, mem_ofList, decide_eq_true_iff]
    by_cases hy : y ∈ s.items
    · simp [hy]
    · simp [hy]

/-- Handing out one more element keeps what was handed out served. -/
theorem Served.serve (h : Served demands s) {x : α} (hx : s.items[s.cursor]? = some x) :
    Served demands (GrowingSet.serve demands s x) := by
  obtain ⟨hlt, -⟩ := List.getElem?_eq_some_iff.mp hx
  obtain ⟨hcoherent, hcursor, hbegins, hmem⟩ := h.serve_extends hlt x
  refine ⟨hcoherent, ?_, ?_⟩
  · rw [hcursor]
    exact Nat.le_trans hlt hbegins.length_le
  · intro k hk y hy z hz
    rw [hcursor] at hk
    have hk' : k < s.items.length := Nat.lt_of_lt_of_le hk hlt
    obtain ⟨new, hnew⟩ := hbegins
    rw [← hnew, List.getElem?_append_left hk'] at hy
    -- elements before the cursor keep what they have; the one at the cursor has just got it
    rcases Nat.lt_succ_iff_lt_or_eq.mp hk with hlt' | rfl
    · exact (hmem z).mpr (Or.inl (h.served k hlt' y hy z hz))
    · obtain rfl : x = y := Option.some.inj (hx.symm.trans hy)
      exact (hmem z).mpr (Or.inr hz)

/-- One round of the pass and of the loop: both end, or both hand out the same
    element. -/
theorem Served.round (h : Served demands s) :
    (s.cursor = s.size ∧ (∃ t, Exhausts demands s t ∧ t.items = s.items) ∧
      ∀ fuel, (closeUnder demands fuel s).items = s.items) ∨
    ∃ x, s.items[s.cursor]? = some x ∧
      (∀ t, Exhausts demands (GrowingSet.serve demands s x) t → Exhausts demands s t) ∧
      ∀ fuel, closeUnder demands (fuel + 1) s
        = closeUnder demands fuel (GrowingSet.serve demands s x) := by
  have hnot : ¬ s.size < s.cursor := Nat.not_lt.mpr h.handed
  rcases Nat.lt_or_eq_of_le h.handed with hlt | heq
  · have hget : s.items[s.cursor]? = some s.items[s.cursor] := List.getElem?_eq_getElem hlt
    have hadvance : s.advance = (true, { s with cursor := s.cursor + 1 }) := by
      rw [advance, if_neg hnot, decide_eq_true hlt]
    refine Or.inr ⟨s.items[s.cursor], hget, fun t ht => .visit hadvance hget ht, fun fuel => ?_⟩
    simp only [closeUnder, hadvance, current?, hget, GrowingSet.serve]
  · have hadvance : s.advance = (false, { s with cursor := s.cursor + 1 }) := by
      rw [advance, if_neg hnot, decide_eq_false (by omega)]
    refine Or.inl ⟨heq, ⟨_, .done hadvance, rfl⟩, fun fuel => ?_⟩
    cases fuel with
    | zero => rfl
    | succ fuel => simp only [closeUnder, hadvance]

/-- A stock of values that has what its members demand. -/
def Stocked (demands : α → List α) (stock : List α) : Prop :=
  ∀ x ∈ stock, ∀ y ∈ demands x, y ∈ stock

/-- Serving an element of a stock adds elements of the stock only. -/
theorem Served.within (h : Served demands s) {stock : List α} (hstock : Stocked demands stock)
    (hsub : ∀ x ∈ s.items, x ∈ stock) {x : α} (hx : s.items[s.cursor]? = some x) :
    ∀ y ∈ (GrowingSet.serve demands s x).items, y ∈ stock := by
  intro y hy
  obtain ⟨hlt, -⟩ := List.getElem?_eq_some_iff.mp hx
  rcases ((h.serve_extends hlt x).2.2.2 y).mp hy with hy | hy
  · exact hsub y hy
  · exact hstock x (hsub x (List.mem_of_getElem? hx)) y hy

/-- With fuel for a stock that the set cannot leave, the pass serves all, and the
    loop ends by itself with the same elements. -/
theorem Served.closeUnder {stock : List α} (hstock : Stocked demands stock) :
    ∀ (fuel : Nat) {s : GrowingSet α}, Served demands s → (∀ x ∈ s.items, x ∈ stock) →
      stock.length ≤ fuel + s.cursor →
        (∃ t, Served demands t ∧ t.cursor = t.size ∧
          t.items = (GrowingSet.closeUnder demands fuel s).items) ∧
        ∃ t, Exhausts demands s t ∧ t.items = (GrowingSet.closeUnder demands fuel s).items := by
  intro fuel
  induction fuel with
  | zero =>
      intro s h hsub hfuel
      -- as many elements have been handed out as the stock has, so none is left
      have hsize : s.size ≤ stock.length := (h.coherent.nodup.subperm hsub).length_le
      have heq : s.cursor = s.size := Nat.le_antisymm h.handed (by omega)
      rcases h.round with ⟨-, hloop, -⟩ | ⟨x, hx, -⟩
      · exact ⟨⟨s, h, heq, rfl⟩, hloop⟩
      · obtain ⟨hlt, -⟩ := List.getElem?_eq_some_iff.mp hx
        exact absurd hlt (by rw [heq, size]; exact Nat.lt_irrefl _)
  | succ fuel ih =>
      intro s h hsub hfuel
      rcases h.round with ⟨heq, hloop, hitems⟩ | ⟨x, hx, hloop, hnext⟩
      · rw [hitems]
        exact ⟨⟨s, h, heq, rfl⟩, hloop⟩
      · rw [hnext]
        obtain ⟨hlt, -⟩ := List.getElem?_eq_some_iff.mp hx
        have hcursor := (h.serve_extends hlt x).2.1
        obtain ⟨hend, t, ht, hitems⟩ := ih (h.serve hx) (h.within hstock hsub hx) (by
          rw [hcursor]
          omega)
        exact ⟨hend, t, hloop t ht, hitems⟩

/-- The pass keeps the elements, and adds only what is forced. -/
theorem Served.closeUnder_induct {P : α → Prop} (hstep : ∀ x, P x → ∀ y ∈ demands x, P y) :
    ∀ (fuel : Nat) {s : GrowingSet α}, Served demands s → (∀ x ∈ s.items, P x) →
      s.items <+: (GrowingSet.closeUnder demands fuel s).items ∧
        ∀ x ∈ (GrowingSet.closeUnder demands fuel s).items, P x := by
  intro fuel
  induction fuel with
  | zero => intro s _ hP; exact ⟨List.prefix_rfl, hP⟩
  | succ fuel ih =>
      intro s h hP
      rcases h.round with ⟨-, -, hitems⟩ | ⟨x, hx, -, hnext⟩
      · rw [hitems]
        exact ⟨List.prefix_rfl, hP⟩
      · rw [hnext]
        obtain ⟨hlt, -⟩ := List.getElem?_eq_some_iff.mp hx
        obtain ⟨-, -, hbegins, hmem⟩ := h.serve_extends hlt x
        obtain ⟨hbegins', hP'⟩ := ih (h.serve hx) (by
          intro y hy
          rcases (hmem y).mp hy with hy | hy
          · exact hP y hy
          · exact hstep x (hP x (List.mem_of_getElem? hx)) y hy)
        exact ⟨hbegins.trans hbegins', hP'⟩

end GrowingSet

end ShiftReduce
