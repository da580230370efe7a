import ShiftReduce.Symbol
import ShiftReduce.Table.Action
import ShiftReduce.Text.Quoted

/-! # Conflicts — two actions for one cell -/

namespace ShiftReduce

/-- The kind of a conflict: the action in the table is a shift, or it is
    not. -/
inductive ConflictKind where
  | shiftReduce
  | reduceReduce
  deriving DecidableEq, Repr

namespace ConflictKind

/-- The name of a kind. -/
def text : ConflictKind → String
  | .shiftReduce => "shift/reduce"
  | .reduceReduce => "reduce/reduce"

/-- The kind with a numeric code. -/
def ofCode (code : Int) : ConflictKind :=
  if code = 0 then .shiftReduce else .reduceReduce

/-- The kind of conflict with an action that is in the table. -/
def ofExisting : Action → ConflictKind
  | .shift _ => .shiftReduce
  | _ => .reduceReduce

end ConflictKind

/-- A cell for which there are two actions; `existing` is the one in the
    table. -/
structure Conflict where
  state : Int
  symbol : Symbol
  kind : ConflictKind
  existing : Action
  candidate : Action
  deriving DecidableEq, Repr

namespace Conflict

/-- The sentence that reports a conflict between two actions given as
    text. -/
def sentence (kind : ConflictKind) (state : Int) (symbol : Symbol)
    (existing candidate : String) : String :=
  kind.text ++ " conflict in state " ++ toString state ++ " on " ++ Text.quote symbol ++ ": "
    ++ existing ++ " vs " ++ candidate

/-- A conflict as text. -/
def text (c : Conflict) : String :=
  sentence c.kind c.state c.symbol c.existing.text c.candidate.text

/-- The conflict of two actions for a cell. -/
def of (state : Int) (symbol : Symbol) (existing candidate : Action) : Conflict :=
  { state, symbol, kind := ConflictKind.ofExisting existing, existing, candidate }

/-- Whether two reports concern the same cell, kind and rule. -/
def sameReport (c d : Conflict) : Bool :=
  c.state == d.state && c.symbol == d.symbol && c.kind == d.kind
    && c.candidate.target == d.candidate.target

end Conflict

end ShiftReduce
