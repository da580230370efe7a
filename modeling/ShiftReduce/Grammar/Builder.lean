import ShiftReduce.Grammar.Basic

/-! # Building grammars — rules put together symbol by symbol

    A builder collects finished rules and keeps any number of drafts, each
    under a name of its own.  A draft is started with its left side, extended
    by terminals and nonterminals and finished as often as wanted.  The first
    mistake is remembered and makes every later attempt to get the grammar
    fail. -/

namespace ShiftReduce

namespace Grammar

/-- The role in which a symbol is used. -/
inductive Role where
  | terminal
  | nonterminal
  deriving DecidableEq, Repr

/-- A rule in the making. -/
structure Draft where
  lhs : Symbol
  body : List Symbol
  deriving DecidableEq, Repr

/-- One instruction to a builder; `draft` names the rule in the making. -/
inductive Instruction where
  | head (draft : String) (s : Symbol)
  | symbol (draft : String) (role : Role) (s : Symbol)
  | finish (draft : String)
  | finishEmpty (draft : String)
  deriving DecidableEq, Repr

/-- The state of a builder. -/
structure Builder where
  name : String
  rules : List Production := []
  roles : List (Symbol × Role) := []
  drafts : List (String × Draft) := []
  mistake : Option Defect := none
  deriving DecidableEq, Repr

namespace Builder

/-- The symbols used in a role, in order of first use. -/
def symbolsIn (b : Builder) (role : Role) : List Symbol :=
  (b.roles.filter fun u => u.2 == role).map Prod.fst

/-- Remembers a mistake unless there is an earlier one. -/
def blame (b : Builder) (d : Defect) : Builder :=
  match b.mistake with
  | some _ => b
  | none => { b with mistake := some d }

/-- Uses a symbol in a role.  After a mistake nothing is declared any more. -/
def use (b : Builder) (s : Symbol) (role : Role) : Builder :=
  if b.mistake.isSome then b
  else if !s.isDeclarable then b.blame (.undeclarable s)
  else match b.roles.lookup s with
    | some r => if r = role then b else b.blame (.bothKinds s)
    | none => { b with roles := b.roles ++ [(s, role)] }

/-- Puts a draft under a name. -/
def putDraft (b : Builder) (key : String) (d : Draft) : Builder :=
  { b with drafts := (key, d) :: b.drafts.filter fun e => e.1 != key }

/-- Turns a draft into the next rule. -/
def conclude (b : Builder) (d : Draft) : Builder × Option Production :=
  let r := Production.ofWritten b.rules.length d.lhs d.body
  ({ b with rules := b.rules ++ [r] }, some r)

/-- Carries out one instruction; finishing a draft also gives the rule.  An
    instruction to a draft that was never started does nothing. -/
def carryOut (b : Builder) : Instruction → Builder × Option Production
  | .head key s => ((b.use s .nonterminal).putDraft key { lhs := s, body := [] }, none)
  | .symbol key role s =>
    match b.drafts.lookup key with
    | none => (b, none)
    | some d => ((b.use s role).putDraft key { d with body := d.body ++ [s] }, none)
  | .finish key =>
    match b.drafts.lookup key with
    | none => (b, none)
    | some d => b.conclude d
  | .finishEmpty key =>
    match b.drafts.lookup key with
    | none => (b, none)
    | some d =>
      let blamed := if d.body.isEmpty then b else b.blame (.epsilonAfterSymbols d.lhs)
      let cleared : Draft := { d with body := [] }
      (blamed.putDraft key cleared).conclude cleared

/-- The grammar built so far.  Its start symbol is the left side of the first
    rule. -/
def grammar (b : Builder) : Except Error Grammar :=
  match b.mistake with
  | some d => .error (.malformed d)
  | none =>
    match b.rules with
    | [] => .error .empty
    | first :: _ =>
      assemble b.name first.lhs (b.symbolsIn .terminal) (b.symbolsIn .nonterminal)
        (b.rules.map some)

/-- Carries out instructions from an empty builder. -/
def ofInstructions (name : String) (is : List Instruction) : Builder :=
  is.foldl (fun b i => (b.carryOut i).1) { name }

end Builder

end Grammar

end ShiftReduce
