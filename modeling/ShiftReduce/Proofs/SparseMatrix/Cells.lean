import ShiftReduce.SparseMatrix

/-! # Stored cells — what bisection finds, and what storing keeps

    As long as the cells stand in strict row-major order, bisection leads to the
    one place where the cell of a position can be.  So the cells fall into those
    before the position, the cell at the position if there is one, and those
    behind it, and storing a value puts a cell between the first and the last
    (`Ordered.exists_parts`).  From there on the cells count as a set
    (`Ordered.exists_elsewhere`):

    * the cell that is found at a position is the member at that position;
    * storing a value takes out the member at its position and puts in another
      one, and the order stays strict.

    Without the order nothing of this holds: bisection would pass over cells that
    are there, and storing would leave two of them at one position. -/

namespace ShiftReduce

namespace SparseMatrix

/-! ## Row-major order -/

theorem Cell.isBefore_iff {c : Cell} {i j : Int} :
    c.isBefore i j = true ↔ c.row < i ∨ c.row = i ∧ c.column < j := by
  simp [Cell.isBefore]

theorem Cell.isAt_iff {c : Cell} {i j : Int} : c.isAt i j = true ↔ c.row = i ∧ c.column = j := by
  simp [Cell.isAt]

/-- A cell comes before another one in row-major order. -/
def Cell.Precedes (c d : Cell) : Prop :=
  c.row < d.row ∨ c.row = d.row ∧ c.column < d.column

/-- What precedes a cell before a position is itself before the position: the search may
    stop at the first cell that is not. -/
theorem Cell.Precedes.isBefore {c d : Cell} (h : c.Precedes d) {i j : Int}
    (hd : d.isBefore i j = true) : c.isBefore i j = true := by
  rw [Cell.isBefore_iff] at hd ⊢
  rw [Cell.Precedes] at h
  omega

/-- The cells stand in strict row-major order. -/
def Ordered (cells : List Cell) : Prop :=
  cells.Pairwise Cell.Precedes

variable {cells : List Cell}

/-! ## Where bisection leads -/

/-- The cells in front of the place of a position come before it. -/
theorem Ordered.isBefore_of_mem_take (h : Ordered cells) {i j : Int} {c : Cell}
    (hc : c ∈ cells.take (place i j cells)) : c.isBefore i j = true := by
  obtain ⟨k, hk⟩ := List.mem_iff_getElem?.mp hc
  have hlt : k < place i j cells := by
    have := (List.getElem?_eq_some_iff.mp hk).1
    rw [List.length_take] at this
    omega
  rw [List.getElem?_take_of_lt hlt] at hk
  have hfails := (isBorder_bisect cells.length _).fails (Nat.zero_lt_of_lt hlt)
  rw [Bool.not_eq_false', Option.any_eq_true] at hfails
  -- the last cell in front of the place comes before the position, and the others before that cell
  obtain ⟨d, hd, hbefore⟩ := hfails
  obtain ⟨hl, rfl⟩ := List.getElem?_eq_some_iff.mp hd
  obtain ⟨hk', rfl⟩ := List.getElem?_eq_some_iff.mp hk
  rcases Nat.lt_or_eq_of_le (Nat.le_sub_one_of_lt hlt) with hkl | hkl
  · exact (List.pairwise_iff_getElem.mp h k _ hk' hl hkl).isBefore hbefore
  · subst hkl
    exact hbefore

/-- The cells from the place of a position on do not come before it. -/
theorem Ordered.not_isBefore_of_mem_drop (h : Ordered cells) {i j : Int} {c : Cell}
    (hc : c ∈ cells.drop (place i j cells)) : ¬ c.isBefore i j = true := by
  have hholds := (isBorder_bisect cells.length fun k =>
    !(cells[k]?.any fun c => c.isBefore i j)).holds
  change place i j cells < cells.length → (!(cells[place i j cells]?.any _)) = true at hholds
  have hordered : Ordered (cells.drop (place i j cells)) := h.sublist (List.drop_sublist _ _)
  cases hrest : cells.drop (place i j cells) with
  | nil =>
      rw [hrest] at hc
      exact nomatch hc
  | cons d rest =>
      rw [hrest] at hc hordered
      have hd : cells[place i j cells]? = some d := by
        rw [← List.head?_drop, hrest]
        rfl
      -- the first of these cells was looked at, and the others come behind it
      have hfirst : ¬ d.isBefore i j = true := by
        have := hholds (List.getElem?_eq_some_iff.mp hd).1
        rw [hd] at this
        simpa using this
      rcases List.mem_cons.mp hc with rfl | hc
      · exact hfirst
      · intro hbefore
        exact hfirst (((List.pairwise_cons.mp hordered).1 c hc).isBefore hbefore)

/-- The place of a position separates the cells before it from all others. -/
theorem Ordered.exists_split (h : Ordered cells) (i j : Int) : ∃ front back,
    cells = front ++ back ∧ place i j cells = front.length ∧
      (∀ c ∈ front, c.isBefore i j = true) ∧ ∀ c ∈ back, ¬ c.isBefore i j = true :=
  ⟨cells.take (place i j cells), cells.drop (place i j cells), (List.take_append_drop _ _).symm,
    (List.length_take_of_le (isBorder_bisect cells.length _).le_high).symm,
    fun _ => h.isBefore_of_mem_take, fun _ => h.not_isBefore_of_mem_drop⟩

/-! ## Storing -/

theorem insertAt_append (front back : List Cell) (c : Cell) :
    insertAt front.length c (front ++ back) = front ++ c :: back := by
  rw [insertAt, List.append_assoc, List.drop_left]
  cases back with
  | nil =>
      have hlonger := overwrite_append (front ++ [c]) [] [c]
      rw [List.length_append, List.length_singleton, List.append_nil] at hlonger
      rw [List.nil_append, hlonger]
      simp
  | cons b back =>
      have hlonger := overwrite_append (front ++ [b]) (back ++ [c]) (b :: back ++ [c])
      rw [List.length_append, List.length_singleton, List.append_assoc] at hlonger
      rw [show front ++ (b :: back ++ [c]) = front ++ ([b] ++ (back ++ [c])) from rfl, hlonger]
      simp

/-- **Bisection is right.**  The cells fall into those before a position, the cell
    that is found there, and those behind it, and a value that is stored gets its
    cell between the first and the last. -/
theorem Ordered.exists_parts (h : Ordered cells) (i j : Int) : ∃ front back,
    cells = front ++ (find? i j cells).toList ++ back ∧
      (∀ c ∈ find? i j cells, c.row = i ∧ c.column = j) ∧
      (∀ c ∈ front, c.isBefore i j = true) ∧
      (∀ c ∈ back, i < c.row ∨ i = c.row ∧ j < c.column) ∧
      ∀ v, store i j v cells = front ++ ⟨i, j, v⟩ :: back := by
  obtain ⟨front, back, rfl, hplace, hfront, hback⟩ := h.exists_split i j
  have hordered : Ordered back := h.sublist (List.sublist_append_right front back)
  have hget : (front ++ back)[front.length]? = back.head? := by
    rw [List.getElem?_append_right (Nat.le_refl _), Nat.sub_self, List.head?_eq_getElem?]
  unfold store find?
  rw [hplace, hget]
  have hbehind : ∀ c ∈ back, c.isAt i j = true ∨ (i < c.row ∨ i = c.row ∧ j < c.column) := by
    intro c hc
    have := hback c hc
    rw [Cell.isBefore_iff] at this
    rw [Cell.isAt_iff]
    omega
  cases back with
  | nil => exact ⟨front, [], by simp, nofun, hfront, nofun, fun v => insertAt_append front [] _⟩
  | cons d back =>
      obtain ⟨hd, -⟩ := List.pairwise_cons.mp hordered
      by_cases hat : d.isAt i j = true
      · -- the cell is stored already, and only its value changes
        have hfound : Option.filter (fun c => c.isAt i j) (d :: back).head? = some d := by
          rw [List.head?_cons, Option.filter_some, if_pos hat]
        rw [hfound]
        obtain ⟨rfl, rfl⟩ := Cell.isAt_iff.mp hat
        refine ⟨front, back, by simp, ?_, hfront, fun c hc => hd c hc, fun v => ?_⟩
        · rintro c hc
          obtain rfl := Option.some.inj hc
          exact ⟨rfl, rfl⟩
        · show (front ++ d :: back).set front.length ⟨d.row, d.column, v⟩ = _
          rw [List.set_append_right _ _ (Nat.le_refl _), Nat.sub_self, List.set_cons_zero]
      · have hnone : Option.filter (fun c => c.isAt i j) (d :: back).head? = none := by
          rw [List.head?_cons, Option.filter_some, if_neg hat]
        rw [hnone]
        refine ⟨front, d :: back, by simp, nofun, hfront, fun c hc => ?_, fun v =>
          insertAt_append front _ _⟩
        have hfirst := (hbehind d List.mem_cons_self).resolve_left hat
        rcases List.mem_cons.mp hc with rfl | hc
        · exact hfirst
        · have := hd c hc
          rw [Cell.Precedes] at this
          omega

/-- As a set, the cells are the one that is found at a position and those elsewhere,
    and a value that is stored takes the place of the first. -/
theorem Ordered.exists_elsewhere (h : Ordered cells) (i j : Int) : ∃ elsewhere : List Cell,
    (∀ c ∈ elsewhere, ¬ (c.row = i ∧ c.column = j)) ∧
      (∀ c ∈ find? i j cells, c.row = i ∧ c.column = j) ∧
      (∀ c, c ∈ cells ↔ find? i j cells = some c ∨ c ∈ elsewhere) ∧
      ∀ v c, c ∈ store i j v cells ↔ c = ⟨i, j, v⟩ ∨ c ∈ elsewhere := by
  obtain ⟨front, back, hcells, hfound, hfront, hback, hstore⟩ := h.exists_parts i j
  refine ⟨front ++ back, ?_, hfound, ?_, ?_⟩
  · intro c hc
    rcases List.mem_append.mp hc with hc | hc
    · have := hfront c hc
      rw [Cell.isBefore_iff] at this
      omega
    · have := hback c hc
      omega
  · intro c
    have hparts : c ∈ cells ↔ c ∈ front ++ (find? i j cells).toList ++ back := by rw [← hcells]
    rw [hparts]
    simp only [List.mem_append, Option.mem_toList, or_assoc, or_left_comm]
  · intro v c
    rw [hstore]
    simp only [List.mem_append, List.mem_cons, or_left_comm]

/-- The cell that is found is the one at the position. -/
theorem Ordered.find?_eq_some_iff (h : Ordered cells) {i j : Int} {c : Cell} :
    find? i j cells = some c ↔ c ∈ cells ∧ c.row = i ∧ c.column = j := by
  obtain ⟨elsewhere, hne, hfound, hmem, -⟩ := h.exists_elsewhere i j
  constructor
  · intro hc
    exact ⟨(hmem c).mpr (Or.inl hc), hfound c hc⟩
  · rintro ⟨hc, hat⟩
    exact ((hmem c).mp hc).resolve_right fun hother => hne c hother hat

/-- Storing keeps the cells in order. -/
theorem Ordered.store (h : Ordered cells) (i j : Int) (v : Int32) :
    Ordered (SparseMatrix.store i j v cells) := by
  obtain ⟨front, back, hcells, -, hfront, hback, hstore⟩ := h.exists_parts i j
  have hparts : Ordered (front ++ back) := by
    rw [hcells, List.append_assoc] at h
    exact h.sublist ((List.sublist_append_right _ back).append_left front)
  obtain ⟨hordered, hordered', hacross⟩ := List.pairwise_append.mp hparts
  rw [hstore]
  refine List.pairwise_append.mpr ⟨hordered, List.pairwise_cons.mpr ⟨hback, hordered'⟩, ?_⟩
  intro c hc d hd
  rcases List.mem_cons.mp hd with rfl | hd
  · exact Cell.isBefore_iff.mp (hfront c hc)
  · exact hacross c hc d hd

/-- Storing takes out the cell at the position and puts in another one. -/
theorem Ordered.mem_store (h : Ordered cells) {i j : Int} {v : Int32} {c : Cell} :
    c ∈ SparseMatrix.store i j v cells
      ↔ c = ⟨i, j, v⟩ ∨ c ∈ cells ∧ ¬ (c.row = i ∧ c.column = j) := by
  obtain ⟨elsewhere, hne, hfound, hmem, hstore⟩ := h.exists_elsewhere i j
  rw [hstore, hmem]
  refine or_congr_right ?_
  constructor
  · intro hc
    exact ⟨Or.inr hc, hne c hc⟩
  · rintro ⟨hc | hc, hnot⟩
    · exact absurd (hfound c hc) hnot
    · exact hc

/-- Storing a value changes what is found at its position, and nothing else. -/
theorem Ordered.find?_store (h : Ordered cells) (i j : Int) (v : Int32) (k l : Int) :
    find? k l (SparseMatrix.store i j v cells)
      = if k = i ∧ l = j then some ⟨i, j, v⟩ else find? k l cells := by
  refine Option.ext fun c => ?_
  rw [(h.store i j v).find?_eq_some_iff, h.mem_store]
  split
  · rename_i heq
    obtain ⟨rfl, rfl⟩ := heq
    constructor
    · rintro ⟨rfl | ⟨-, hne⟩, hat⟩
      · rfl
      · exact absurd hat hne
    · intro hc
      obtain rfl := Option.some.inj hc
      exact ⟨Or.inl rfl, rfl, rfl⟩
  · rename_i hne
    rw [h.find?_eq_some_iff]
    constructor
    · rintro ⟨rfl | ⟨hc, -⟩, hat⟩
      · exact absurd ⟨hat.1.symm, hat.2.symm⟩ hne
      · exact ⟨hc, hat⟩
    · rintro ⟨hc, rfl, rfl⟩
      exact ⟨Or.inr ⟨hc, hne⟩, rfl, rfl⟩

/-! ## Matrices -/

variable {m : SparseMatrix}

/-- A write changes the cells only, neither the bounds nor the null value. -/
theorem put_frame (m : SparseMatrix) (i j : Int) (v : Int32) :
    (m.put i j v).rows = m.rows ∧ (m.put i j v).columns = m.columns ∧
      (m.put i j v).null = m.null := by
  rw [put]
  split
  · exact ⟨rfl, rfl, rfl⟩
  · exact ⟨rfl, rfl, rfl⟩

/-- A write keeps the cells in row-major order, whether it overwrites a cell or inserts
    one. -/
theorem Ordered.put (h : Ordered m.cells) (i j : Int) (v : Int32) :
    Ordered (m.put i j v).cells := by
  rw [SparseMatrix.put]
  split
  · exact h.store i j v
  · exact h

/-- The value at a position is the value of the cell there. -/
theorem value_eq (m : SparseMatrix) (i j : Int) :
    m.value i j = ((find? i j m.cells).map Cell.value).getD m.null := by
  rw [value]
  cases find? i j m.cells with
  | none => rfl
  | some c => rfl

/-- The values of a matrix after one was stored. -/
theorem value_put (hordered : Ordered m.cells) {i j : Int} (h : m.inside i j = true) (v : Int32)
    (k l : Int) : (m.put i j v).value k l = if k = i ∧ l = j then v else m.value k l := by
  rw [value_eq, value_eq, put, if_pos h]
  dsimp only
  rw [hordered.find?_store]
  split <;> rfl

end SparseMatrix

end ShiftReduce
