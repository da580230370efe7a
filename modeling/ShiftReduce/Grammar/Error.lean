import ShiftReduce.Text.Quoted
import ShiftReduce.Symbol

/-! # Grammar errors — why parts do not make a grammar -/

namespace ShiftReduce

namespace Grammar

/-- What is wrong with a malformed grammar. -/
inductive Defect where
  /-- The serial numbers of the rules are not 0, 1, 2, … -/
  | ruleNumbers
  /-- A reserved or empty symbol is declared. -/
  | undeclarable (s : Symbol)
  /-- The start symbol is no nonterminal. -/
  | startSymbol (s : Symbol)
  /-- The left side of a rule is no nonterminal. -/
  | leftSide (id : Int) (lhs : Symbol)
  /-- A rule uses a symbol that is not declared. -/
  | undeclared (s : Symbol) (id : Int)
  /-- A rule mentions `ε` beside other symbols. -/
  | mixedEpsilon (id : Int)
  /-- A symbol is used as a terminal and as a nonterminal. -/
  | bothKinds (s : Symbol)
  /-- An empty body is asked for while symbols are pending. -/
  | epsilonAfterSymbols (lhs : Symbol)
  deriving DecidableEq, Repr

/-- The wording of a defect. -/
def Defect.message : Defect → String
  | .ruleNumbers => "rule IDs must be unique and contiguous from 0"
  | .undeclarable s => Text.quote s ++ " is not a valid grammar symbol"
  | .startSymbol s => "start symbol " ++ Text.quote s ++ " is not a non-terminal"
  | .leftSide id lhs => "LHS of rule " ++ toString id ++ " (" ++ lhs ++ ") is not a non-terminal"
  | .undeclared s id => "symbol " ++ Text.quote s ++ " in rule " ++ toString id ++ " is undeclared"
  | .mixedEpsilon id =>
    "ε may only appear as the sole symbol of a rule (rule " ++ toString id ++ ")"
  | .bothKinds s => "symbol " ++ Text.quote s ++ " used as terminal and as non-terminal"
  | .epsilonAfterSymbols lhs => "rule for " ++ lhs ++ " mixes ε with other symbols"

/-- Why there is no grammar. -/
inductive Error where
  | empty
  | malformed (defect : Defect)
  deriving DecidableEq, Repr

/-- The wording of an error. -/
def Error.message : Error → String
  | .empty => "empty grammar"
  | .malformed d => "malformed grammar: " ++ d.message

end Grammar

end ShiftReduce
