import ShiftReduce.Analysis.First

/-! # FOLLOW sets — what can stand behind a nonterminal

    FOLLOW of a nonterminal holds the terminals that can stand right behind it
    in a derived form, and the end marker if it can stand last. -/

namespace ShiftReduce

namespace Follow

/-- All sets are empty but those of the start symbols, which the end of the
    input follows. -/
def initial (g : Grammar) : SymbolMap :=
  let empty : SymbolMap := g.nonterminals.foldl (fun m n => SymbolMap.put n [] m) []
  let started := SymbolMap.extend g.start [Symbol.endMarker] empty
  match g.innerStart with
  | some s => SymbolMap.extend s [Symbol.endMarker] started
  | none => started

/-- What a nonterminal before a rest of a rule is followed by: what the rest
    can begin with and, if the rest can vanish, what follows the left side. -/
def contribution (first m : SymbolMap) (lhs : Symbol) (rest : List Symbol) : SymbolSet :=
  let f := First.ofSequence first rest
  let begins := SymbolSet.without Symbol.epsilon f
  if f.contains Symbol.epsilon then SymbolSet.union begins (SymbolMap.get m lhs) else begins

/-- What the occurrences of nonterminals in a body add. -/
def applyBody (g : Grammar) (first : SymbolMap) (lhs : Symbol) :
    List Symbol → SymbolMap → SymbolMap
  | [], m => m
  | s :: rest, m =>
    applyBody g first lhs rest
      (if g.isNonterminal s then SymbolMap.extend s (contribution first m lhs rest) m else m)

/-- One round over all rules. -/
def round (g : Grammar) (first m : SymbolMap) : SymbolMap :=
  g.rules.foldl (fun m r => applyBody g first r.lhs r.body m) m

/-- The FOLLOW sets of a grammar, given its FIRST sets. -/
def sets (g : Grammar) (first : SymbolMap) : SymbolMap :=
  saturate (round g first) (First.rounds g) (initial g)

end Follow

end ShiftReduce
