import Mathlib.Data.Finset.Card
import ShiftReduce.Proofs.SparseMatrix.Cells

/-! # Finite maps — a sparse matrix shows the values that were set last

    A matrix is the work of the values that were set, one after the other, in any
    order and repeatedly; a value that is set outside of the matrix is refused and
    changes nothing.  What is kept throughout is the order of the cells and what is
    found at every position (`Represents`): the value that was set there last.
    All that a matrix shows follows from that. -/

namespace ShiftReduce

namespace SparseMatrix

/-! ## Setting values one after the other -/

/-- Sets a value; the matrix stays as it is if the position is refused. -/
def attempt (m : SparseMatrix) (c : Cell) : SparseMatrix :=
  match m.set c.row c.column c.value with
  | .ok m' => m'
  | .error _ => m

/-- The matrix after values have been set one after the other. -/
def ofSettings (rows columns : Int) (null : Int32) (settings : List Cell) : SparseMatrix :=
  settings.foldl attempt { rows, columns, null }

/-- A cell lies within dimensions. -/
def Cell.Within (rows columns : Int) (c : Cell) : Prop :=
  (0 ≤ c.row ∧ c.row < rows) ∧ 0 ≤ c.column ∧ c.column < columns

instance (rows columns : Int) (c : Cell) : Decidable (c.Within rows columns) :=
  inferInstanceAs (Decidable (_ ∧ _))

/-- Where a cell is. -/
def Cell.position (c : Cell) : Int × Int :=
  (c.row, c.column)

/-- The settings that are not refused. -/
def granted (rows columns : Int) (settings : List Cell) : List Cell :=
  settings.filter fun c => c.Within rows columns

/-- The value that was set last at a position. -/
def lastSet? (rows columns : Int) (settings : List Cell) (i j : Int) : Option Int32 :=
  ((granted rows columns settings).reverse.find? fun c => c.isAt i j).map Cell.value

variable {rows columns : Int} {null : Int32} {settings : List Cell}

/-- A further setting counts at its own position, if that is within the bounds, and
    nowhere else. -/
theorem lastSet?_concat (rows columns : Int) (settings : List Cell) (c : Cell) (i j : Int) :
    lastSet? rows columns (settings ++ [c]) i j
      = if c.Within rows columns ∧ i = c.row ∧ j = c.column then some c.value
        else lastSet? rows columns settings i j := by
  rw [lastSet?, lastSet?, granted, granted, List.filter_append, List.reverse_append]
  by_cases hin : c.Within rows columns
  · rw [List.filter_cons_of_pos (by simpa using hin), List.filter_nil, List.reverse_singleton,
      List.singleton_append, List.find?_cons]
    by_cases hat : i = c.row ∧ j = c.column
    · rw [if_pos ⟨hin, hat⟩, Cell.isAt_iff.mpr ⟨hat.1.symm, hat.2.symm⟩]
      rfl
    · have hnot : c.isAt i j = false := by
        rw [Bool.eq_false_iff, Ne, Cell.isAt_iff]
        exact fun h => hat ⟨h.1.symm, h.2.symm⟩
      rw [if_neg fun h => hat h.2, hnot]
  · rw [List.filter_cons_of_neg (by simpa using hin), List.filter_nil, List.reverse_nil,
      List.nil_append, if_neg fun h => hin h.1]

/-- A position has a value when some setting within the bounds named it. -/
theorem isSome_lastSet?_iff {i j : Int} :
    (lastSet? rows columns settings i j).isSome = true
      ↔ (i, j) ∈ (granted rows columns settings).map Cell.position := by
  rw [lastSet?, Option.isSome_map, List.find?_isSome, List.mem_map]
  refine exists_congr fun c => and_congr List.mem_reverse ?_
  rw [Cell.isAt_iff, Cell.position, Prod.mk.injEq]

/-! ## The invariant -/

/-- The cells of a matrix are in order, and a map says what is found at every
    position. -/
structure Represents (m : SparseMatrix) (f : Int → Int → Option Int32) : Prop where
  ordered : Ordered m.cells
  found : ∀ i j, (find? i j m.cells).map Cell.value = f i j

/-- A matrix that was made for settings has the dimensions that were asked for and
    represents the last values. -/
structure Made (rows columns : Int) (null : Int32) (settings : List Cell) (m : SparseMatrix) :
    Prop where
  rows_eq : m.rows = rows
  columns_eq : m.columns = columns
  null_eq : m.null = null
  represents : m.Represents (lastSet? rows columns settings)

variable {m : SparseMatrix}

theorem Made.inside_iff (h : m.Made rows columns null settings) {c : Cell} :
    m.inside c.row c.column = true ↔ c.Within rows columns := by
  rw [inside, h.rows_eq, h.columns_eq]
  simp [Cell.Within, and_assoc]

/-- A setting is carried out or refused. -/
theorem Made.set_eq (h : m.Made rows columns null settings) (c : Cell) :
    m.set c.row c.column c.value = if c.Within rows columns then .ok (m.attempt c)
      else .error ⟨c.row, c.column, rows, columns⟩ := by
  by_cases hin : c.Within rows columns
  · rw [if_pos hin, attempt, set, if_pos (h.inside_iff.mpr hin)]
  · rw [if_neg hin, set, if_neg (mt h.inside_iff.mp hin), h.rows_eq, h.columns_eq]

theorem made_nil (rows columns : Int) (null : Int32) :
    Made rows columns null [] { rows, columns, null } where
  rows_eq := rfl
  columns_eq := rfl
  null_eq := rfl
  represents := ⟨List.Pairwise.nil, fun _ _ => rfl⟩

/-- One more setting. -/
theorem Made.attempt (h : m.Made rows columns null settings) (c : Cell) :
    (m.attempt c).Made rows columns null (settings ++ [c]) := by
  by_cases hin : c.Within rows columns
  · have hinside := h.inside_iff.mpr hin
    have hstored : m.attempt c = { m with cells := store c.row c.column c.value m.cells } := by
      rw [SparseMatrix.attempt, set, if_pos hinside, put, if_pos hinside]
    rw [hstored]
    refine ⟨h.rows_eq, h.columns_eq, h.null_eq, h.represents.ordered.store _ _ _, ?_⟩
    intro i j
    rw [h.represents.ordered.find?_store, lastSet?_concat]
    by_cases hat : i = c.row ∧ j = c.column
    · rw [if_pos hat, if_pos ⟨hin, hat⟩]
      rfl
    · rw [if_neg hat, if_neg fun hc => hat hc.2]
      exact h.represents.found i j
  · have hrefused : m.attempt c = m := by
      rw [SparseMatrix.attempt, h.set_eq, if_neg hin]
    rw [hrefused]
    refine ⟨h.rows_eq, h.columns_eq, h.null_eq, h.represents.ordered, ?_⟩
    intro i j
    rw [lastSet?_concat, if_neg fun hc => hin hc.1]
    exact h.represents.found i j

/-- Any number of settings. -/
theorem made_ofSettings (rows columns : Int) (null : Int32) (settings : List Cell) :
    (ofSettings rows columns null settings).Made rows columns null settings := by
  have hfrom : ∀ (more : List Cell) {settings : List Cell} {m : SparseMatrix},
      m.Made rows columns null settings →
        (more.foldl SparseMatrix.attempt m).Made rows columns null (settings ++ more) := by
    intro more
    induction more with
    | nil =>
        intro settings m h
        rw [List.append_nil]
        exact h
    | cons c more ih =>
        intro settings m h
        rw [show settings ++ c :: more = settings ++ [c] ++ more by simp]
        exact ih (h.attempt c)
  exact hfrom settings (made_nil rows columns null)

/-! ## What a matrix shows -/

/-- A cell is stored if and only if its value was set last. -/
theorem Represents.mem_iff {f : Int → Int → Option Int32} (h : m.Represents f) {c : Cell} :
    c ∈ m.cells ↔ f c.row c.column = some c.value := by
  rw [← h.found, Option.map_eq_some_iff]
  constructor
  · intro hc
    exact ⟨c, h.ordered.find?_eq_some_iff.mpr ⟨hc, rfl, rfl⟩, rfl⟩
  · rintro ⟨d, hd, hvalue⟩
    obtain ⟨hmem, hrow, hcolumn⟩ := h.ordered.find?_eq_some_iff.mp hd
    have hcd : d = c := by
      cases c
      cases d
      simp_all
    exact hcd ▸ hmem

/-- There are no two cells at one position. -/
theorem Ordered.nodup_positions {cells : List Cell} (h : Ordered cells) :
    (cells.map Cell.position).Nodup := by
  refine List.pairwise_map.mpr (h.imp ?_)
  intro c d hcd heq
  rw [Cell.position, Cell.position, Prod.mk.injEq] at heq
  rw [Cell.Precedes] at hcd
  omega

/-- There are as many cells as positions that were set. -/
theorem Made.count_eq (h : m.Made rows columns null settings) :
    m.count = ((granted rows columns settings).map Cell.position).toFinset.card := by
  rw [count, ← List.length_map Cell.position,
    ← List.toFinset_card_of_nodup h.represents.ordered.nodup_positions]
  congr 1
  ext ⟨i, j⟩
  rw [List.mem_toFinset, List.mem_toFinset, ← isSome_lastSet?_iff, ← h.represents.found,
    Option.isSome_map, Option.isSome_iff_exists, List.mem_map]
  refine exists_congr fun c => ?_
  rw [h.represents.ordered.find?_eq_some_iff, Cell.position, Prod.mk.injEq]

/-- What can be seen of a matrix after values have been set. -/
structure Shows (rows columns : Int) (null : Int32) (settings : List Cell) (m : SparseMatrix) :
    Prop where
  /-- The stored cells are in strict row-major order. -/
  ordered : m.cells.Pairwise Cell.Precedes
  /-- A position has the value that was set there last, and the null value if none was. -/
  value : ∀ i j, m.value i j = (lastSet? rows columns settings i j).getD null
  /-- Every position that was ever set counts once. -/
  count : m.count = ((granted rows columns settings).map Cell.position).toFinset.card
  /-- The cells that are not empty are listed in strict row-major order. -/
  entries_ordered : m.entries.Pairwise Cell.Precedes
  /-- They are the positions whose last value is not the null value, with that value. -/
  mem_entries : ∀ c, c ∈ m.entries ↔
    lastSet? rows columns settings c.row c.column = some c.value ∧ c.value ≠ null
  /-- One more setting is carried out within the dimensions, and refused outside of them. -/
  set : ∀ c : Cell, m.set c.row c.column c.value = if c.Within rows columns
    then .ok (ofSettings rows columns null (settings ++ [c]))
    else .error ⟨c.row, c.column, rows, columns⟩
  /-- A setting that is refused changes nothing. -/
  refused : ∀ c : Cell, ¬ c.Within rows columns →
    ofSettings rows columns null (settings ++ [c]) = m

/-- **A sparse matrix is a finite map.**  After any sequence of settings the cells
    are in order, every position has the value that was set there last, and the
    positions are counted and listed once. -/
theorem ofSettings_shows (rows columns : Int) (null : Int32) (settings : List Cell) :
    (ofSettings rows columns null settings).Shows rows columns null settings := by
  have h := made_ofSettings rows columns null settings
  have hnext : ∀ c, ofSettings rows columns null (settings ++ [c])
      = (ofSettings rows columns null settings).attempt c := by
    intro c
    rw [ofSettings, List.foldl_append]
    rfl
  refine ⟨h.represents.ordered, ?_, h.count_eq, ?_, ?_, ?_, ?_⟩
  · intro i j
    rw [value_eq, h.represents.found, h.null_eq]
  · exact h.represents.ordered.sublist List.filter_sublist
  · intro c
    rw [entries, List.mem_filter, h.represents.mem_iff, h.null_eq, bne_iff_ne]
  · intro c
    rw [hnext, h.set_eq]
  · intro c hout
    rw [hnext, attempt, h.set_eq, if_neg hout]

/-- Values at both ends and in the middle, one of them set twice, one to the null
    value, one outside. -/
example :
    let m := ofSettings 3 3 (-1) [⟨1, 1, 11⟩, ⟨0, 2, 2⟩, ⟨2, 0, 20⟩, ⟨1, 1, -1⟩, ⟨0, 2, 5⟩, ⟨0, 3, 7⟩]
    m.entries = [⟨0, 2, 5⟩, ⟨2, 0, 20⟩] ∧ m.count = 3 ∧ m.value 1 1 = -1 ∧ m.value 0 3 = -1 := by
  decide

end SparseMatrix

end ShiftReduce
