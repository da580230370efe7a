import ShiftReduce.Item.Closure

/-! # The automaton of a grammar — item sets and the moves between them

    The states are the closed item sets that can be reached from the start
    item, numbered in the order in which they are found: states are visited by
    number, and the symbols of the grammar are tried in order. -/

namespace ShiftReduce

/-- A set of items with its number and its moves, in the order in which they
    were found. -/
structure Automaton.State where
  id : Nat
  items : ItemSet
  transitions : List (Symbol × Nat)
  deriving DecidableEq, Repr

/-- The LR(0) automaton of a grammar. -/
structure Automaton where
  grammar : Grammar
  states : List Automaton.State
  deriving DecidableEq, Repr

namespace Automaton

/-- Whether the completed item of rule 0 is in the state. -/
def State.accepts (s : State) : Bool :=
  s.items.contains Item.accepting

/-- A state accepts if the start rule has been read to its end there. -/
theorem State.accepts_iff {s : State} : s.accepts = true ↔ Item.accepting ∈ s.items :=
  List.contains_iff_mem

/-- The state that a symbol leads to. -/
def State.goto? (s : State) (x : Symbol) : Option Nat :=
  s.transitions.lookup x

/-- A state as text: its number and how many items it has. -/
def State.text (s : State) : String :=
  "(state " ++ toString s.id ++ " | [" ++ toString s.items.length ++ "])"

/-- The number of states. -/
def size (a : Automaton) : Nat :=
  a.states.length

/-- The state with a number. -/
def state? (a : Automaton) : Int → Option State
  | .ofNat n => a.states[n]?
  | .negSucc _ => none

/-! ## Construction -/

/-- An automaton in the making: the item sets found so far, and the moves of
    those that have been visited. -/
structure Survey where
  sets : List ItemSet
  rows : List (List (Symbol × Nat))
  deriving DecidableEq, Repr

/-- The number of an item set, which is added behind the others if it is
    new. -/
def locate (sets : List ItemSet) (s : ItemSet) : Nat × List ItemSet :=
  match sets.findIdx? fun t => ItemSet.same t s with
  | some k => (k, sets)
  | none => (sets.length, sets ++ [s])

/-- Tries one symbol on an item set. -/
def tryMove (g : Grammar) (source : ItemSet) (found : List (Symbol × Nat) × List ItemSet)
    (x : Symbol) : List (Symbol × Nat) × List ItemSet :=
  match ItemSet.move g source x with
  | [] => found
  | target =>
    let (k, sets) := locate found.2 target
    (found.1 ++ [(x, k)], sets)

/-- Visits the next item set. -/
def Survey.visit (g : Grammar) (symbols : List Symbol) (v : Survey) (s : ItemSet) : Survey :=
  let (row, sets) := symbols.foldl (tryMove g s) ([], v.sets)
  { sets, rows := v.rows ++ [row] }

/-- Visits item sets by number until all are visited, at most as many as the
    fuel says. -/
def Survey.complete (g : Grammar) (symbols : List Symbol) : Nat → Survey → Survey
  | 0, v => v
  | fuel + 1, v =>
    match v.sets[v.rows.length]? with
    | none => v
    | some s => (v.visit g symbols s).complete g symbols fuel

/-- The number of items that a grammar has. -/
def itemCount (g : Grammar) : Nat :=
  g.rules.foldr (fun r n => r.body.length + 1 + n) 0

/-- The survey of all item sets that can be reached.  There are no more of them
    than there are sets of items. -/
def survey (g : Grammar) : Survey :=
  Survey.complete g g.symbols (Nat.pow 2 (itemCount g))
    { sets := [ItemSet.closure g [Item.start]], rows := [] }

/-- The automaton that a survey describes. -/
def Survey.automaton (g : Grammar) (v : Survey) : Automaton :=
  { grammar := g
    states := (v.sets.zip v.rows).mapIdx fun k (items, transitions) => { id := k, items, transitions } }

/-- The LR(0) automaton of a grammar. -/
def build (g : Grammar) : Automaton :=
  (survey g).automaton g

end Automaton

end ShiftReduce
