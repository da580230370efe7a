import ShiftReduce.Analysis.Saturation
import ShiftReduce.Analysis.SymbolSet
import ShiftReduce.Grammar.Basic

/-! # FIRST sets — how derived words can begin

    FIRST of a nonterminal holds the terminals that a word derived from it can
    begin with, and `ε` if the empty word can be derived.  The sets grow round
    by round over all rules until a round adds nothing. -/

namespace ShiftReduce

namespace First

/-- FIRST of a symbol.  A symbol without a set counts as a terminal. -/
def ofSymbol (m : SymbolMap) (s : Symbol) : SymbolSet :=
  (m.lookup s).getD [s]

/-- FIRST of a sequence: that of its first symbol and, as long as symbols can
    vanish, of those behind it; `ε` if all of them can vanish. -/
def ofSequence (m : SymbolMap) : List Symbol → SymbolSet
  | [] => [Symbol.epsilon]
  | s :: rest =>
    if s = Symbol.epsilon then ofSequence m rest
    else
      let f := ofSymbol m s
      if f.contains Symbol.epsilon then
        SymbolSet.union (SymbolSet.without Symbol.epsilon f) (ofSequence m rest)
      else f

/-- Terminals and the two reserved symbols begin with themselves; the sets of
    nonterminals start empty. -/
def initial (g : Grammar) : SymbolMap :=
  let own : SymbolMap := (g.terminals ++ [Symbol.epsilon, Symbol.endMarker]).foldl
    (fun m t => SymbolMap.put t [t] m) []
  g.nonterminals.foldl (fun m n => SymbolMap.put n [] m) own

/-- What one rule adds. -/
def applyRule (m : SymbolMap) (r : Production) : SymbolMap :=
  SymbolMap.extend r.lhs (ofSequence m r.body) m

/-- One round over all rules. -/
def round (g : Grammar) (m : SymbolMap) : SymbolMap :=
  g.rules.foldl applyRule m

/-- Enough rounds: each but the last adds a terminal or one reserved symbol to
    the set of some nonterminal. -/
def rounds (g : Grammar) : Nat :=
  g.nonterminals.length * (g.terminals.length + 1) + 1

/-- The FIRST sets of a grammar. -/
def sets (g : Grammar) : SymbolMap :=
  saturate (round g) (rounds g) (initial g)

end First

end ShiftReduce
