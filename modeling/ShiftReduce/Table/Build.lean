import ShiftReduce.Analysis.Basic
import ShiftReduce.Automaton.Basic
import ShiftReduce.Table.Basic

/-! # Filling the tables — SLR(1)

    Moves over terminals give shifts, moves over nonterminals give gotos, and a
    completed item gives a reduction before every symbol that can follow its
    left side.  The completed item of the start symbol gives acceptance at the
    end of the input, whatever is in that cell; elsewhere the action that was
    written first stays, and a later candidate is reported as a conflict. -/

namespace ShiftReduce

namespace Table

/-- Adds a conflict unless the same one has been reported. -/
def report (t : Table) (c : Conflict) : Table :=
  if t.conflicts.any c.sameReport then t else { t with conflicts := t.conflicts ++ [c] }

/-- Enters a move of the automaton. -/
def enterMove (g : Grammar) (state : Nat) (t : Table) (move : Symbol × Nat) : Table :=
  if g.isTerminal move.1 then t.setAction state move.1 (.shift move.2)
  else t.setGoto state move.1 move.2

/-- Enters acceptance at the end of the input. -/
def enterAccept (t : Table) (state : Nat) : Table :=
  let noted := match t.action? state Symbol.endMarker with
    | some existing =>
      if existing = Action.accept then t
      else t.report (Conflict.of state Symbol.endMarker existing .accept)
    | none => t
  noted.setAction state Symbol.endMarker .accept

/-- Enters a reduction before one symbol. -/
def enterReduction (rule : Int) (state : Nat) (t : Table) (lookahead : Symbol) : Table :=
  if (column? t.terminals lookahead).isNone then t
  else match t.action? state lookahead with
    | some existing =>
      if existing = Action.reduce rule then t
      else t.report (Conflict.of state lookahead existing (.reduce rule))
    | none => t.setAction state lookahead (.reduce rule)

/-- Enters what an item of a state gives. -/
def enterItem (a : Analysis) (state : Nat) (t : Table) (i : Item) : Table :=
  match a.grammar.rule? i.rule with
  | none => t
  | some r =>
    if !i.isReduction a.grammar then t
    else if r.lhs = a.grammar.start then t.enterAccept state
    else (a.follow r.lhs).foldl (enterReduction r.id state) t

/-- Enters the moves and the completed items of a state. -/
def enterState (a : Analysis) (t : Table) (s : Automaton.State) : Table :=
  (ItemSet.sorted s.items).foldl (enterItem a s.id)
    (s.transitions.foldl (enterMove a.grammar s.id) t)

/-- The SLR(1) tables of an automaton. -/
def build (a : Analysis) (m : Automaton) : Table :=
  m.states.foldl (enterState a)
    (blank m.size (a.grammar.terminals ++ [Symbol.endMarker])
      (a.grammar.nonterminals.filter fun n => n != a.grammar.start))

end Table

end ShiftReduce
