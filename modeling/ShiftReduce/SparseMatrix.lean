import ShiftReduce.Bisection
import ShiftReduce.Overwriting

/-! # Sparse matrices — the cells that have been set, in row-major order

    A matrix of 32-bit integers stores a cell only once it has been set.  All
    other cells hold the null value of the matrix.  A cell may be set to the
    null value; it is then stored, but counts as empty.

    The stored cells stand in row-major order.  A position is looked up by
    bisection, and a cell that is set for the first time is put where bisection
    leads, all cells from there on moving up by one place. -/

namespace ShiftReduce

/-- A stored cell. -/
structure SparseMatrix.Cell where
  row : Int
  column : Int
  value : Int32
  deriving DecidableEq, Repr

/-- A matrix with its dimensions and its null value. -/
structure SparseMatrix where
  rows : Int
  columns : Int
  null : Int32
  cells : List SparseMatrix.Cell := []
  deriving DecidableEq, Repr

namespace SparseMatrix

/-- The null value that matrices have unless another is wanted. -/
def defaultNull : Int32 :=
  -2147483648

/-- Whether a cell comes before a position in row-major order. -/
def Cell.isBefore (c : Cell) (i j : Int) : Bool :=
  c.row < i || (c.row == i && c.column < j)

/-- Whether a cell is the one at a position. -/
def Cell.isAt (c : Cell) (i j : Int) : Bool :=
  c.row == i && c.column == j

/-! ## Looking up and storing cells -/

/-- The place of the first cell that does not come before a position. -/
def place (i j : Int) (cells : List Cell) : Nat :=
  bisect cells.length fun k => !(cells[k]?.any fun c => c.isBefore i j)

/-- The cell at a position, if it is stored where bisection leads. -/
def find? (i j : Int) (cells : List Cell) : Option Cell :=
  cells[place i j cells]?.filter fun c => c.isAt i j

/-- Puts a cell at a place.  The list grows by one, and the cells from the place
    on are written over those from the next place on. -/
def insertAt (k : Nat) (c : Cell) (cells : List Cell) : List Cell :=
  let longer := cells ++ [c]
  (overwrite longer (k + 1) (longer.drop k)).set k c

/-- Stores a value at a position. -/
def store (i j : Int) (v : Int32) (cells : List Cell) : List Cell :=
  match find? i j cells with
  | some c => cells.set (place i j cells) { c with value := v }
  | none => insertAt (place i j cells) ⟨i, j, v⟩ cells

/-! ## Matrices -/

/-- The value at a position; the null value if nothing is stored there. -/
def value (m : SparseMatrix) (i j : Int) : Int32 :=
  match find? i j m.cells with
  | some c => c.value
  | none => m.null

/-- Whether a position holds a value other than the null value. -/
def has (m : SparseMatrix) (i j : Int) : Bool :=
  m.value i j != m.null

/-- Whether a position lies inside the matrix. -/
def inside (m : SparseMatrix) (i j : Int) : Bool :=
  0 ≤ i && i < m.rows && 0 ≤ j && j < m.columns

/-- A position outside of a matrix. -/
structure Outside where
  row : Int
  column : Int
  rows : Int
  columns : Int
  deriving DecidableEq, Repr

/-- The wording of the complaint about a position outside. -/
def Outside.message (e : Outside) : String :=
  "sparse.IntMatrix.Set(" ++ toString e.row ++ "," ++ toString e.column ++ ") outside of "
    ++ toString e.rows ++ " x " ++ toString e.columns

/-- The matrix with a value stored at a position, and itself if the position
    lies outside. -/
def put (m : SparseMatrix) (i j : Int) (v : Int32) : SparseMatrix :=
  if m.inside i j then { m with cells := store i j v m.cells } else m

/-- Stores a value at a position, which has to lie inside. -/
def set (m : SparseMatrix) (i j : Int) (v : Int32) : Except Outside SparseMatrix :=
  if m.inside i j then .ok (m.put i j v) else .error ⟨i, j, m.rows, m.columns⟩

/-- The number of stored cells, empty ones included. -/
def count (m : SparseMatrix) : Nat :=
  m.cells.length

/-- The cells that are not empty, in row-major order. -/
def entries (m : SparseMatrix) : List Cell :=
  m.cells.filter fun c => c.value != m.null

end SparseMatrix

end ShiftReduce
