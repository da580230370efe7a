import ShiftReduce.Display.Markup
import ShiftReduce.Display.Width

/-! # Columns — rows of text under each other

    Every cell is filled up with blanks to the width of its column, which is
    the greatest number of cells that a text in it takes on the terminal.  A
    line divides its cells by ` | `, and an empty line ends the table.  The
    first row is the head of the table and has a style. -/

namespace ShiftReduce

namespace Display

/-- The width of a cell, escape codes apart. -/
def cellWidth (s : String) : Nat :=
  width (uncoded s.toList)

/-- A text filled up with blanks on the right. -/
def fill (room : Nat) (s : String) : String :=
  s ++ String.ofList (List.replicate (room - cellWidth s) ' ')

/-- The greater width of two columns, position by position. -/
def widen : List Nat → List Nat → List Nat
  | [], ns => ns
  | ms, [] => ms
  | m :: ms, n :: ns => max m n :: widen ms ns

/-- The widths of the columns of a table. -/
def widths (rows : List (List String)) : List Nat :=
  rows.foldl (fun ws row => widen ws (row.map cellWidth)) []

/-- One line of a table. -/
def rowLine (ws : List Nat) (row : List String) : String :=
  " | ".intercalate ((ws.zip row).map fun (w, s) => fill w s)

/-- The lines of a table. -/
def tableLines (rows : List (List String)) : List String :=
  match rows.map (rowLine (widths rows)) with
  | [] => []
  | head :: body => unstyled head :: body

/-- A table with its cells in columns. -/
def columns (rows : List (List String)) : String :=
  printed (String.join ((tableLines rows).map fun line => line ++ "\n") ++ "\n")

end Display

end ShiftReduce
