/-! # Actions — what a parser does in a state before a terminal

    An action shifts to a state, reduces by a rule or accepts.  A table cell
    holds an action as a 32-bit integer: states from zero upward, acceptance as
    minus one, rule `p` as `-(p + 2)`.  The least integer is left over, so it
    can mark an empty cell. -/

namespace ShiftReduce

/-- A table entry. -/
inductive Action where
  | shift (state : Int)
  | reduce (rule : Int)
  | accept
  deriving DecidableEq, Repr

/-- The kind of an action. -/
inductive ActionKind where
  | shift
  | reduce
  | accept
  deriving DecidableEq, Repr

namespace ActionKind

/-- The name of a kind. -/
def text : ActionKind → String
  | .shift => "shift"
  | .reduce => "reduce"
  | .accept => "accept"

/-- The kind with a numeric code. -/
def ofCode? (code : Int) : Option ActionKind :=
  if code = 0 then some .shift
  else if code = 1 then some .reduce
  else if code = 2 then some .accept
  else none

/-- The name of the kind with a numeric code. -/
def codeText (code : Int) : String :=
  match ofCode? code with
  | some k => k.text
  | none => "<unknown action>"

end ActionKind

namespace Action

/-- The kind of an action. -/
def kind : Action → ActionKind
  | .shift _ => .shift
  | .reduce _ => .reduce
  | .accept => .accept

/-- The state or the rule that an action names; zero for acceptance. -/
def target : Action → Int
  | .shift s => s
  | .reduce p => p
  | .accept => 0

/-- An action as it stands in a table. -/
def text : Action → String
  | .shift s => "s" ++ toString s
  | .reduce p => "r" ++ toString p
  | .accept => "acc"

/-- The action with a numeric code for its kind. -/
def ofCode? (code target : Int) : Option Action :=
  (ActionKind.ofCode? code).map fun
    | .shift => .shift target
    | .reduce => .reduce target
    | .accept => .accept

/-- The text of the action with a numeric code for its kind. -/
def codeText (code target : Int) : String :=
  match ofCode? code target with
  | some a => a.text
  | none => "?"

/-! ## Cells -/

/-- The integer that stands for an action in a cell. -/
def encode : Action → Int32
  | .shift s => Int32.ofInt s
  | .accept => -1
  | .reduce p => Int32.ofInt (-(p + 2))

/-- The action that a cell's integer stands for. -/
def decode (v : Int32) : Action :=
  if 0 ≤ v then .shift v.toInt
  else if v = -1 then .accept
  else .reduce ((-v).toInt - 2)

end Action

end ShiftReduce
