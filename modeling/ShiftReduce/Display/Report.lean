import ShiftReduce.Automaton.Basic
import ShiftReduce.Analysis.Basic
import ShiftReduce.Display.Columns
import ShiftReduce.Display.Outline
import ShiftReduce.Simulator.Run

/-! # Reports — what users get to see -/

namespace ShiftReduce

namespace Report

/-! ## Messages -/

/-- A message for information. -/
def info (s : String) : String :=
  Display.printedMessage (">>: " ++ s ++ "\n")

/-- A message about an error. -/
def error (s : String) : String :=
  Display.printedMessage ("Error: " ++ s ++ "\n")

/-- A message about conflicts. -/
def conflict (s : String) : String :=
  Display.printedMessage ("Conflict: " ++ s ++ "\n")

/-- A message of success. -/
def success (s : String) : String :=
  Display.printedMessage ("SUCCESS: " ++ s ++ "\n")

/-! ## Grammars, automata and tables -/

/-- The rules of a grammar. -/
def grammar (g : Grammar) : String :=
  Display.columns (["#", "production"] :: g.rules.map fun r => [toString r.id, r.text])

/-- A set of symbols in braces. -/
def symbolSet (s : SymbolSet) : String :=
  "\x7b " ++ " ".intercalate s ++ " \x7d"

/-- The FIRST and FOLLOW sets of the nonterminals. -/
def sets (a : Analysis) : String :=
  Display.columns (["non-terminal", "nullable", "FIRST", "FOLLOW"]
    :: a.grammar.nonterminals.map fun n =>
      [n, if a.nullable n then "yes" else "", symbolSet (a.first n), symbolSet (a.follow n)])

/-- A state with its items and its moves. -/
def stateOutline (g : Grammar) (s : Automaton.State) : Outline :=
  let title := "state " ++ toString s.id ++ (if s.accepts then " (accept)" else "")
  .entry title
    ((ItemSet.sorted s.items).map (fun i => .entry (i.format g) [])
      ++ s.transitions.map fun t => .entry (t.1 ++ " → " ++ toString t.2) [])

/-- The states of an automaton. -/
def states (m : Automaton) : String :=
  String.join (m.states.map fun s => Outline.drawing [stateOutline m.grammar s])

/-- The conflicts of a table, or that there are none. -/
def conflicts (t : Table) : String :=
  if t.hasConflicts then String.join (t.conflicts.map fun c => conflict c.text)
  else success "grammar is SLR(1)"

/-- Both tables and their conflicts. -/
def table (t : Table) : String :=
  Display.columns t.rows ++ conflicts t

/-! ## Runs -/

/-- Numbers divided by blanks. -/
def numbers (ns : List Int) : String :=
  " ".intercalate (ns.map toString)

/-- The input that is left at a step. -/
def input (s : Simulator.Step) : String :=
  Bytes.toText (Bytes.joinBlank s.input)

/-- The line of a step in a trace. -/
def traceRow (s : Simulator.Step) : List String :=
  [toString (s.index + 1), numbers s.states, " ".intercalate s.symbols, input s, s.move.label]

/-- All steps of a run. -/
def trace (steps : List Simulator.Step) : String :=
  Display.columns (["step", "states", "symbols", "input", "action"] :: steps.map traceRow)

/-- One step with the stacks and the input. -/
def step (s : Simulator.Step) : String :=
  let sentence := toString (s.index + 1) ++ ": " ++ s.move.explanation
  (if s.kind.isError then error sentence else info sentence)
    ++ Display.printed ("   states  " ++ numbers s.states ++ "\n")
    ++ Display.printed ("   symbols " ++ " ".intercalate s.symbols ++ "\n")
    ++ Display.printed ("   input   " ++ input s ++ "\n")

/-- The line of a leaf: its label and, if it differs, its value. -/
def leafLine (label : Symbol) (value : Option Bytes) : String :=
  match value with
  | some v => if v = Bytes.ofText label then label else label ++ " \"" ++ Bytes.toText v ++ "\""
  | none => label

mutual

/-- A parse tree as an outline. -/
def nodeOutline : Node → Outline
  | .leaf _ label value _ => .entry (leafLine label value) []
  | .interior _ label _ _ children => .entry label (nodeOutlines children)

/-- Parse trees as outlines. -/
def nodeOutlines : List Node → List Outline
  | [] => []
  | n :: ns => nodeOutline n :: nodeOutlines ns

end

/-- Parse trees side by side. -/
def forest (f : Forest) : String :=
  if f.isEmpty then info "empty forest" else Outline.drawing (nodeOutlines f)

end Report

end ShiftReduce
