import ShiftReduce.Analysis.Follow
import ShiftReduce.Grammar.Augment

/-! # Analysis — a grammar with its FIRST and FOLLOW sets -/

namespace ShiftReduce

/-- A grammar together with its FIRST and FOLLOW sets. -/
structure Analysis where
  grammar : Grammar
  firstSets : SymbolMap
  followSets : SymbolMap
  deriving DecidableEq, Repr

namespace Analysis

/-- The analysis of a grammar as it is. -/
def ofGrammar (g : Grammar) : Analysis :=
  let first := First.sets g
  { grammar := g, firstSets := first, followSets := Follow.sets g first }

/-- The analysis of a grammar, augmented if it is not yet. -/
def make (g : Grammar) : Except Grammar.Error Analysis := do
  return ofGrammar (← g.ensureAugmented)

/-- FIRST of a symbol. -/
def first (a : Analysis) (s : Symbol) : SymbolSet :=
  First.ofSymbol a.firstSets s

/-- FIRST of a sequence of symbols. -/
def firstOfSequence (a : Analysis) (ss : List Symbol) : SymbolSet :=
  First.ofSequence a.firstSets ss

/-- FOLLOW of a symbol; terminals have none. -/
def follow (a : Analysis) (s : Symbol) : SymbolSet :=
  SymbolMap.get a.followSets s

/-- Whether the empty word can be derived from a symbol. -/
def nullable (a : Analysis) (s : Symbol) : Bool :=
  (a.first s).contains Symbol.epsilon

/-- Whether two analyses have the same sets. -/
def agrees (a b : Analysis) : Bool :=
  SymbolMap.agree a.firstSets b.firstSets && SymbolMap.agree a.followSets b.followSets

end Analysis

end ShiftReduce
