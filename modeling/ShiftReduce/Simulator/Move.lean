import ShiftReduce.Grammar.Production
import ShiftReduce.Table.Action
import ShiftReduce.Text.Quoted
import ShiftReduce.Token.Basic

/-! # Moves — what a shift-reduce parser does, and how it is told

    Every move of a parser has a kind, the table action behind it, a short
    label and a sentence that explains it. -/

namespace ShiftReduce

namespace Simulator

/-- Why a run breaks off although the input is not at fault. -/
inductive Fault where
  /-- The parser has made as many rounds as it may. -/
  | iterationLimit (limit : Nat)
  /-- There is no grammar or no table. -/
  | notInitialized
  /-- The table names a rule that the grammar does not have. -/
  | unknownProduction (id : Int)
  /-- A rule is longer than the stack. -/
  | stackUnderflow (rule : Production)
  /-- A reduction reaches the bottom of the stack, where no node is. -/
  | absentNode
  deriving DecidableEq, Repr

namespace Fault

/-- The wording of a fault. -/
def message : Fault → String
  | .iterationLimit n => "parser exceeded the limit of " ++ toString n ++ " iterations"
  | .notInitialized => "SLR(1)-parser not initialized"
  | .unknownProduction p => "table refers to unknown production " ++ toString p
  | .stackUnderflow r => "stack underflow reducing " ++ r.text
  | .absentNode => "runtime error: invalid memory address or nil pointer dereference"

/-- The label of a step that reports a fault. -/
def label : Fault → String
  | .iterationLimit _ => "iteration limit"
  | _ => "internal error"

/-- Whether the fault shows that table, grammar and stack do not fit together.
    A strict run breaks off without a step for such a fault. -/
def isMismatch : Fault → Bool
  | .unknownProduction _ | .stackUnderflow _ | .absentNode => true
  | _ => false

/-- The complaint of the parser itself about a mismatch; about a node that is
    not there it has none. -/
def complaint? : Fault → Option String
  | .absentNode => none
  | f => some f.message

end Fault

/-- The kind of a step. -/
inductive StepKind where
  | shift
  | reduce
  | goTo
  | accept
  | syntaxError
  | gotoError
  | internalError
  deriving DecidableEq, Repr

namespace StepKind

/-- The name of a kind. -/
def text : StepKind → String
  | .shift => "shift"
  | .reduce => "reduce"
  | .goTo => "goto"
  | .accept => "accept"
  | .syntaxError => "syntax error"
  | .gotoError => "goto error"
  | .internalError => "internal error"

/-- The numeric code of a kind. -/
def code : StepKind → Int
  | .shift => 0
  | .reduce => 1
  | .goTo => 2
  | .accept => 3
  | .syntaxError => 4
  | .gotoError => 5
  | .internalError => 6

/-- Whether a numeric code belongs to the errors. -/
def codeIsError (code : Int) : Bool :=
  4 ≤ code

/-- Whether a step of this kind reports an error. -/
def isError (k : StepKind) : Bool :=
  codeIsError k.code

/-- All kinds in the order of their codes. -/
def all : List StepKind :=
  [.shift, .reduce, .goTo, .accept, .syntaxError, .gotoError, .internalError]

/-- The name of the kind with a numeric code. -/
def codeText (code : Int) : String :=
  match all.find? fun k => k.code == code with
  | some k => k.text
  | none => "<unknown step>"

/-- Whether a parse can go on from behind a step of this kind. -/
def isResumable : StepKind → Bool
  | .shift | .goTo => true
  | _ => false

end StepKind

/-- A move of the parser. -/
inductive Move where
  | shift (symbol : Symbol) (target : Int)
  | reduce (rule : Production)
  | goTo (rule : Production) (source target : Int)
  | accept
  | syntaxError (state : Int) (token : Token)
  | gotoError (rule : Production) (state : Int)
  | fault (fault : Fault)
  deriving DecidableEq, Repr

namespace Move

/-- The kind of a move. -/
def kind : Move → StepKind
  | .shift .. => .shift
  | .reduce _ => .reduce
  | .goTo .. => .goTo
  | .accept => .accept
  | .syntaxError .. => .syntaxError
  | .gotoError .. => .gotoError
  | .fault _ => .internalError

/-- The table action behind a move. -/
def action? : Move → Option Action
  | .shift _ target => some (.shift target)
  | .reduce r => some (.reduce r.id)
  | .goTo r _ _ => some (.reduce r.id)
  | .accept => some .accept
  | .gotoError r _ => some (.reduce r.id)
  | .syntaxError .. | .fault _ => none

/-- The action as text; no action looks like a shift to state zero. -/
def actionText (m : Move) : String :=
  (m.action?.getD (.shift 0)).text

/-- A few words on a move. -/
def label : Move → String
  | .shift _ target => "shift " ++ toString target
  | .reduce r => "reduce " ++ r.text
  | .goTo _ _ target => "goto " ++ toString target
  | .accept => "accept"
  | .syntaxError .. => "syntax error"
  | .gotoError .. => "goto error"
  | .fault f => f.label

/-- A sentence on a move. -/
def explanation : Move → String
  | .shift s target => "shift " ++ Text.quote s ++ " and go to state " ++ toString target
  | .reduce r => "reduce by production " ++ toString r.id ++ ": " ++ r.text
  | .goTo r source target =>
    "go from state " ++ toString source ++ " to state " ++ toString target ++ " on " ++ r.lhs
  | .accept => "input accepted"
  | .syntaxError state token =>
    "no action for state " ++ toString state ++ " and "
      ++ (if token.symbol = Symbol.unmatched then
          "unrecognized input " ++ Text.quoteBytes token.lexeme
        else "token " ++ Text.quote token.symbol)
  | .gotoError r state => "no goto entry for state " ++ toString state ++ " and " ++ r.lhs
  | .fault f => f.message

end Move

end Simulator

end ShiftReduce
