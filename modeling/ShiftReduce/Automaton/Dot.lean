import ShiftReduce.Automaton.Basic
import ShiftReduce.Text.Numeral

/-! # Drawings of automata — the DOT graph language

    Every state is a node that shows its number and its items; every move is an
    edge with the symbol as its label. -/

namespace ShiftReduce

namespace Automaton

/-- The characters that mean something in a label. -/
def isLabelMark (c : Char) : Bool :=
  c == '"' || c == '\x7b' || c == '\x7d' || c == '|' || c == '<' || c == '>'

/-- A text inside a label: a backslash before every character that means
    something there. -/
def escapeLabel (s : String) : String :=
  String.ofList (s.toList.flatMap fun c => if isLabelMark c then ['\\', c] else [c])

/-- The name of a node. -/
def nodeName (id : Nat) : String :=
  "s" ++ Numeral.padded 3 id

/-- The items of a state, one to a line. -/
def itemLines (g : Grammar) (s : State) : String :=
  "\\l".intercalate ((ItemSet.sorted s.items).map fun i => escapeLabel (i.format g)) ++ "\\l"

/-- The label of a state. -/
def stateLabel (g : Grammar) (s : State) : String :=
  "\x7b" ++ Numeral.padded 3 s.id ++ " | " ++ itemLines g s ++ "\x7d"

/-- The line that draws a state. -/
def nodeLine (g : Grammar) (s : State) : String :=
  nodeName s.id ++ " [fillcolor=" ++ (if s.accepts then "lightgray" else "white")
    ++ " label=\"" ++ stateLabel g s ++ "\"]\n"

/-- The line that draws a move. -/
def edgeLine (source : Nat) (t : Symbol × Nat) : String :=
  nodeName source ++ " -> " ++ nodeName t.2 ++ " [label=\"" ++ escapeLabel t.1 ++ "\"]\n"

/-- The beginning of every drawing. -/
def drawingHead : String :=
  "digraph \x7b\n"
    ++ "graph [splines=true, fontname=Helvetica, fontsize=10];\n"
    ++ "node [shape=Mrecord, style=filled, fontname=Helvetica, fontsize=10];\n"
    ++ "edge [fontname=Helvetica, fontsize=10];\n\n"

/-- The automaton as a graph. -/
def toDot (a : Automaton) : String :=
  drawingHead
    ++ String.join (a.states.map (nodeLine a.grammar))
    ++ String.join (a.states.flatMap fun s => s.transitions.map (edgeLine s.id))
    ++ "\x7d\n"

end Automaton

end ShiftReduce
