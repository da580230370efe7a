import ShiftReduce.GrowingSet
import ShiftReduce.Item.Basic

/-! # Closures — item sets that are complete with respect to a grammar

    The closure of a set adds, for every item that expects a nonterminal, the
    items of all its rules with the dot in front.  Moving over a symbol
    advances the items that expect it and takes the closure. -/

namespace ShiftReduce

namespace Item

/-- The items with the dot in front that an item asks for. -/
def demands (g : Grammar) (i : Item) : List Item :=
  match i.next? g with
  | some s => if g.isNonterminal s then (g.rulesOf s).map fun r => ⟨r.id, 0⟩ else []
  | none => []

end Item

namespace ItemSet

/-- The closure: the items of the set first, then those that were asked for,
    each once.  Only items with the dot in front are added, one for every rule,
    so the pass hands out at most as many items as the set and the grammar
    have. -/
def closure (g : Grammar) (s : ItemSet) : ItemSet :=
  ((GrowingSet.ofList s).closeUnder (Item.demands g) (s.length + g.size)).toList

/-- The closure, if every item of the set can be read. -/
def closure? (g : Grammar) (s : ItemSet) : Option ItemSet :=
  if s.all (Item.isReadable g) then some (closure g s) else none

/-- The items that expect a symbol, moved over it. -/
def advanced (g : Grammar) (s : ItemSet) (x : Symbol) : ItemSet :=
  (s.filter fun i => i.peek g == x).map Item.advance

/-- The items that expect a symbol, moved over it, and their closure. -/
def move (g : Grammar) (s : ItemSet) (x : Symbol) : ItemSet :=
  closure g (advanced g s x)

/-- The move, if every item of the set can be read before it and every item
    that is moved can be read behind it. -/
def move? (g : Grammar) (s : ItemSet) (x : Symbol) : Option ItemSet :=
  if s.all (Item.isReadable g) then closure? g (advanced g s x) else none

end ItemSet

end ShiftReduce
