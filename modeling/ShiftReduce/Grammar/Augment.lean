import ShiftReduce.Grammar.Basic

/-! # Augmentation — a fresh start symbol with one rule

    Augmenting adds rule 0, which derives the start symbol from a fresh one,
    and moves every other rule up by one. -/

namespace ShiftReduce

namespace Grammar

/-- Whether a name is taken, by a declared or by a reserved symbol. -/
def isTaken (g : Grammar) (s : Symbol) : Bool :=
  g.isDeclared s || s == Symbol.epsilon || s == Symbol.endMarker

/-- Adds primes to a name until it is not taken, at most as many as the fuel
    says. -/
def primed (g : Grammar) : Nat → Symbol → Symbol
  | 0, s => s
  | fuel + 1, s => if g.isTaken s then g.primed fuel (s ++ "'") else s

/-- The start symbol with the fewest primes that make it fresh.  The names
    with one prime, two primes, … differ from each other and from the reserved
    ones, so one of the first `n + 1` is free if `n` symbols are declared. -/
def freshStart (g : Grammar) : Symbol :=
  g.primed (g.terminals.length + g.nonterminals.length + 1) (g.start ++ "'")

/-- The grammar with a fresh start symbol and the new rule 0. -/
def augmented (g : Grammar) : Grammar :=
  { name := g.name
    start := g.freshStart
    innerStart := some g.start
    terminals := g.terminals
    nonterminals := g.freshStart :: g.nonterminals
    rules := { id := 0, lhs := g.freshStart, body := [g.start] }
      :: g.rules.map fun r => { r with id := r.id + 1 } }

/-- Augments a grammar that has rules. -/
def augment (g : Grammar) : Except Error Grammar :=
  if g.rules.isEmpty then .error .empty else .ok g.augmented

/-- Augments a grammar unless it is augmented already. -/
def ensureAugmented (g : Grammar) : Except Error Grammar :=
  if g.rules.isEmpty then .error .empty
  else if g.isAugmented then .ok g
  else .ok g.augmented

end Grammar

end ShiftReduce
