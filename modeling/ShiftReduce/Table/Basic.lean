import ShiftReduce.SparseMatrix
import ShiftReduce.Table.Conflict

/-! # Parse tables — ACTION and GOTO

    The ACTION table has a row for every state and a column for every terminal
    and the end marker; the GOTO table has a column for every nonterminal but
    the start symbol.  An empty cell of the ACTION table is a syntax error. -/

namespace ShiftReduce

/-- The tables of an SLR(1) parser and the conflicts found on the way. -/
structure Table where
  stateCount : Nat
  terminals : List Symbol
  nonterminals : List Symbol
  actions : SparseMatrix
  gotos : SparseMatrix
  conflicts : List Conflict := []
  deriving DecidableEq, Repr

namespace Table

/-- The last column with a header. -/
def columnFrom (x : Symbol) : Nat → List Symbol → Option Nat
  | _, [] => none
  | k, y :: ys =>
    match columnFrom x (k + 1) ys with
    | some j => some j
    | none => if y = x then some k else none

/-- The column of a symbol among the headers. -/
def column? (headers : List Symbol) (x : Symbol) : Option Nat :=
  columnFrom x 0 headers

/-- The tables with empty cells. -/
def blank (stateCount : Nat) (terminals nonterminals : List Symbol) : Table :=
  { stateCount, terminals, nonterminals
    actions :=
      { rows := stateCount, columns := terminals.length, null := SparseMatrix.defaultNull }
    gotos :=
      { rows := stateCount, columns := nonterminals.length, null := SparseMatrix.defaultNull } }

/-- Whether a state has a row. -/
def hasRow (t : Table) (state : Int) : Bool :=
  0 ≤ state && state < t.stateCount

/-- The action in a state before a terminal or the end marker. -/
def action? (t : Table) (state : Int) (terminal : Symbol) : Option Action :=
  match column? t.terminals terminal with
  | none => none
  | some j =>
    if t.hasRow state && t.actions.has state j then
      some (Action.decode (t.actions.value state j))
    else none

/-- The state behind a nonterminal. -/
def goto? (t : Table) (state : Int) (nonterminal : Symbol) : Option Int :=
  match column? t.nonterminals nonterminal with
  | none => none
  | some j =>
    if t.hasRow state && t.gotos.has state j then some (t.gotos.value state j).toInt else none

/-- Writes an action into its cell. -/
def setAction (t : Table) (state : Nat) (terminal : Symbol) (a : Action) : Table :=
  match column? t.terminals terminal with
  | none => t
  | some j => { t with actions := t.actions.put state j a.encode }

/-- Writes a state into its cell. -/
def setGoto (t : Table) (state : Nat) (nonterminal : Symbol) (target : Nat) : Table :=
  match column? t.nonterminals nonterminal with
  | none => t
  | some j => { t with gotos := t.gotos.put state j (Int32.ofNat target) }

/-- Whether the grammar is not SLR(1). -/
def hasConflicts (t : Table) : Bool :=
  !t.conflicts.isEmpty

/-- The action of a cell as text. -/
def actionText (t : Table) (state : Nat) (terminal : Symbol) : String :=
  ((t.action? state terminal).map Action.text).getD ""

/-- The state of a cell as text. -/
def gotoText (t : Table) (state : Nat) (nonterminal : Symbol) : String :=
  ((t.goto? state nonterminal).map toString).getD ""

/-- Both tables as rows of text, the headers first. -/
def rows (t : Table) : List (List String) :=
  ("state" :: t.terminals ++ t.nonterminals)
    :: (List.range t.stateCount).map fun s =>
      toString s :: t.terminals.map (t.actionText s) ++ t.nonterminals.map (t.gotoText s)

end Table

end ShiftReduce
