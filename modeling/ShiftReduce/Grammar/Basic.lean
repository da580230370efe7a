import ShiftReduce.Grammar.Error
import ShiftReduce.Grammar.Production

/-! # Grammars — rules over two declared alphabets

    A grammar has a start symbol, its terminals and nonterminals in the order
    of declaration, and its rules in the order of their numbers.
    `Grammar.assemble` checks loose parts and puts the rules into order. -/

namespace ShiftReduce

/-- A context-free grammar.  An augmented grammar remembers the start symbol
    that it had before. -/
structure Grammar where
  name : String
  start : Symbol
  innerStart : Option Symbol := none
  terminals : List Symbol
  nonterminals : List Symbol
  rules : List Production
  deriving DecidableEq, Repr

namespace Grammar

/-- The grammar with nothing but a name. -/
def blank (name : String) : Grammar :=
  { name, start := "", terminals := [], nonterminals := [], rules := [] }

/-- Whether a symbol is a declared terminal. -/
def isTerminal (g : Grammar) (s : Symbol) : Bool :=
  g.terminals.contains s

/-- Whether a symbol is a declared nonterminal. -/
def isNonterminal (g : Grammar) (s : Symbol) : Bool :=
  g.nonterminals.contains s

/-- Whether a symbol is declared. -/
def isDeclared (g : Grammar) (s : Symbol) : Bool :=
  g.isTerminal s || g.isNonterminal s

/-- Whether the grammar is the result of an augmentation. -/
def isAugmented (g : Grammar) : Bool :=
  g.innerStart.isSome

/-- The start symbol before augmentation. -/
def baseStart (g : Grammar) : Symbol :=
  g.innerStart.getD g.start

/-- The number of rules. -/
def size (g : Grammar) : Nat :=
  g.rules.length

/-- The rule with a serial number. -/
def rule? (g : Grammar) : Int → Option Production
  | .ofNat n => g.rules[n]?
  | .negSucc _ => none

/-- The rules of a nonterminal, in order. -/
def rulesOf (g : Grammar) (s : Symbol) : List Production :=
  g.rules.filter fun r => r.lhs == s

/-- All symbols in order of first appearance: within the rules first, then
    among the declared nonterminals and terminals. -/
def symbols (g : Grammar) : List Symbol :=
  ((g.rules.flatMap fun r => r.lhs :: r.body) ++ g.nonterminals ++ g.terminals).eraseDups.filter
    fun s => s != Symbol.epsilon && s != Symbol.endMarker

/-! ## Assembling a grammar from its parts -/

/-- Puts a rule into the slot of its number.  Fails if the rule is missing, if
    there is no such slot, or if the slot is taken. -/
def place? (slots : List (Option Production)) : Option Production → Option (List (Option Production))
  | none => none
  | some r =>
    match r.id with
    | .negSucc _ => none
    | .ofNat n => if slots[n]? = some none then some (slots.set n (some r)) else none

/-- Puts the rules into the order of their numbers, one by one into as many
    slots as there are rules.  So if each finds its slot free, no slot is left
    over, and the numbers are exactly 0, 1, 2, … -/
def arrange? (rules : List (Option Production)) : Option (List Production) := do
  let slots ← rules.foldlM place? (List.replicate rules.length none)
  slots.mapM id

/-- The first defect of a rule with respect to the declared symbols. -/
def ruleDefect? (g : Grammar) (r : Production) : Option Defect :=
  if !g.isNonterminal r.lhs then some (.leftSide r.id r.lhs)
  else match r.body.find? fun s => s != Symbol.epsilon && !g.isDeclared s with
    | some s => some (.undeclared s r.id)
    | none => if r.body.contains Symbol.epsilon then some (.mixedEpsilon r.id) else none

/-- The first defect of a grammar whose rules are in order. -/
def defect? (g : Grammar) : Option Defect :=
  match (g.terminals ++ g.nonterminals).find? fun s => !s.isDeclarable with
  | some s => some (.undeclarable s)
  | none =>
    if !g.isNonterminal g.start then some (.startSymbol g.start)
    else g.rules.findSome? (ruleDefect? g)

/-- The grammar with the given parts.  Rules may come in any order; a missing
    rule is a defect. -/
def assemble (name : String) (start : Symbol) (terminals nonterminals : List Symbol)
    (rules : List (Option Production)) : Except Error Grammar :=
  if rules.isEmpty then .error .empty
  else match arrange? rules with
    | none => .error (.malformed .ruleNumbers)
    | some ordered =>
      let g : Grammar := { name, start, terminals, nonterminals, rules := ordered }
      match defect? g with
      | some d => .error (.malformed d)
      | none => .ok g

end Grammar

end ShiftReduce
