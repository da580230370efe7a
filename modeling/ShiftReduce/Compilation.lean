import ShiftReduce.Grammar.Fingerprint
import ShiftReduce.Table.Build

/-! # Compilations — everything derived from a grammar, and a cache of them

    A cache keeps compilations under the fingerprints of their grammars.  A
    grammar whose fingerprint is known gets the compilation that is there, with
    the name of the grammar that was compiled first. -/

namespace ShiftReduce

/-- The analysis of an augmented grammar, its automaton and its tables. -/
structure Compilation where
  analysis : Analysis
  automaton : Automaton
  table : Table
  deriving DecidableEq, Repr

namespace Compilation

/-- The augmented grammar. -/
def grammar (c : Compilation) : Grammar :=
  c.analysis.grammar

/-- The compilation that an analysis gives. -/
def ofAnalysis (a : Analysis) : Compilation :=
  let m := Automaton.build a.grammar
  { analysis := a, automaton := m, table := Table.build a m }

/-- Compiles a grammar.  Conflicts are no error. -/
def compile (g : Grammar) : Except Grammar.Error Compilation := do
  return ofAnalysis (← Analysis.make g)

/-- Compiles a grammar that may be absent.  An absent grammar is as good as an
    empty one. -/
def compileGiven : Option Grammar → Except Grammar.Error Compilation
  | some g => compile g
  | none => .error .empty

/-- Compilations under the fingerprints of their grammars. -/
structure Cache where
  entries : List (String × Compilation) := []
  deriving DecidableEq, Repr

namespace Cache

/-- The compilation under a fingerprint. -/
def get? (c : Cache) (fingerprint : String) : Option Compilation :=
  c.entries.lookup fingerprint

/-- The number of compilations. -/
def size (c : Cache) : Nat :=
  c.entries.length

/-- The compilation of a grammar, made only if its fingerprint is new, and the
    cache afterwards. -/
def compile (c : Cache) (g : Grammar) : Except Grammar.Error (Compilation × Cache) :=
  match c.get? g.fingerprint with
  | some known => .ok (known, c)
  | none => do
    let made ← Compilation.compile g
    return (made, { entries := (g.fingerprint, made) :: c.entries })

/-- Answers a request for the compilation of a grammar that may be absent, and
    gives the cache afterwards.  Nothing is kept of a failure. -/
def request (c : Cache) : Option Grammar → Except Grammar.Error Compilation × Cache
  | some g =>
    match c.compile g with
    | .ok (made, after) => (.ok made, after)
    | .error e => (.error e, c)
  | none => (.error .empty, c)

end Cache

end Compilation

end ShiftReduce
