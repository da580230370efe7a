import ShiftReduce.Compilation
import ShiftReduce.Display.Report
import ShiftReduce.Files
import ShiftReduce.Session.Command
import ShiftReduce.Text.Numeral

/-! # Sessions — stepping through parses of a loaded grammar

    A session holds a compiled grammar, the result of the latest parse and a
    cursor to the step on display.  A command changes them one after the other,
    and may fail at any place on its way. -/

namespace ShiftReduce

/-- The state of a session. -/
structure Session where
  limit : Nat := Simulator.defaultLimit
  cache : Compilation.Cache := {}
  compilation : Option Compilation := none
  result : Option Simulator.Result := none
  cursor : Nat := 0
  deriving Repr

namespace Session

/-- Why a command fails. -/
inductive Error where
  | noGrammar
  | noParse
  | loadUsage
  | stepUsage
  | load (error : LoadError)
  | compile (error : Grammar.Error)
  | noStep (number : Int) (count : Nat)
  | notANumber (text : String)
  | cannotResume (number : Int) (kind : Simulator.StepKind)
  | unknownCommand (name : String)
  /-- The cursor is not at a step. -/
  | noCurrent
  deriving DecidableEq, Repr

/-- The wording of an error. -/
def Error.message : Error → String
  | .noGrammar => "no grammar loaded, use 'load <file>'"
  | .noParse => "no parse in progress, use 'parse <input>'"
  | .loadUsage => "usage: load <file>"
  | .stepUsage => "usage: step <number>"
  | .load e => e.message
  | .compile e => e.message
  | .noStep n count => "no step " ++ toString n ++ ", parse has " ++ toString count ++ " steps"
  | .notANumber t => "not a step number: " ++ Text.quote t
  | .cannotResume n kind => "cannot resume after step " ++ toString n ++ ": " ++ kind.text
  | .unknownCommand name => "unknown command " ++ Text.quote name ++ ", try 'help'"
  | .noCurrent => "index out of range"

/-- What a command comes to: the session as the command leaves it, an error if it
    fails, and what was said until then. -/
structure Outcome where
  session : Session
  error : Option Error := none
  output : String := ""
  deriving Repr

/-- Says something before all else. -/
def Outcome.behind (o : Outcome) (said : String) : Outcome :=
  { o with output := said ++ o.output }

/-- Leaves the session as it is and says something. -/
def say (s : Session) (output : String) : Outcome :=
  { session := s, output }

/-- Leaves the session as it is and fails. -/
def fail (s : Session) (e : Error) : Outcome :=
  { session := s, error := some e }

/-- Goes on with the compiled grammar. -/
def withGrammar (s : Session) (next : Compilation → Outcome) : Outcome :=
  match s.compilation with
  | some c => next c
  | none => s.fail .noGrammar

/-- Goes on with the compiled grammar and the latest parse. -/
def withParse (s : Session) (next : Compilation → Simulator.Result → Outcome) : Outcome :=
  s.withGrammar fun c =>
    match s.result with
    | some r => next c r
    | none => s.fail .noParse

/-- The step at the cursor. -/
def current? (s : Session) : Option Simulator.Step :=
  s.result.bind fun r => r.steps[s.cursor]?

/-- Goes on with the step at the cursor. -/
def withCurrent (s : Session) (next : Simulator.Step → Outcome) : Outcome :=
  match s.current? with
  | some step => next step
  | none => s.fail .noCurrent

/-- Loads a grammar. -/
def load (read : String → FileReply) (s : Session) (path : String) : Outcome :=
  match loadGrammar read path with
  | .error e => s.fail (.load e)
  | .ok g =>
    match s.cache.compile g with
    | .error e => s.fail (.compile e)
    | .ok (c, cache) =>
      say { s with cache, compilation := some c, result := none, cursor := 0 }
        (Report.info ("loaded grammar " ++ Text.quote c.grammar.name ++ ", "
            ++ toString c.automaton.size ++ " states")
          ++ (if c.table.hasConflicts then Report.conflicts c.table else ""))

/-- Shows the step at the cursor, and that the input is accepted if this is the
    last step of a parse that accepts. -/
def showCurrent (s : Session) (r : Simulator.Result) : Outcome :=
  s.withCurrent fun step =>
    s.say (Report.step step
      ++ (if s.cursor + 1 = r.steps.length ∧ r.accepted then Report.success "input accepted" else ""))

/-- Moves the cursor to a step of a parse and shows the step. -/
def move (s : Session) (r : Simulator.Result) (place : Int) : Outcome :=
  if place < 0 ∨ (r.steps.length : Int) ≤ place then s.fail (.noStep (place + 1) r.steps.length)
  else showCurrent { s with cursor := place.toNat } r

/-- The parser of a compiled grammar. -/
def parser (s : Session) (c : Compilation) : Simulator :=
  Simulator.make (some c.grammar) (some c.table) s.limit

/-- The warning before a parse with a table that has conflicts. -/
def warning (c : Compilation) : String :=
  if c.table.hasConflicts then
    Report.conflict ("grammar has " ++ toString c.table.conflicts.length
      ++ " conflicts, using first table entries")
  else ""

/-- Parses input and shows the first step. -/
def parse (s : Session) (input : String) : Outcome :=
  s.withGrammar fun c =>
    let r := (s.parser c).parse (Bytes.ofText input) none
    (move { s with result := some r } r 0).behind (warning c)

/-- A parse whose steps behind a place are those of another parse. -/
def patch (r : Simulator.Result) (place : Nat) (more : Simulator.Result) : Simulator.Result :=
  { more with steps := r.steps.take (place + 1) ++ more.steps }

/-- Goes on from the step at the cursor with other input.  The steps up to it are
    kept. -/
def resume (s : Session) (input : String) : Outcome :=
  s.withParse fun c r =>
    s.withCurrent fun step =>
      if step.kind.isResumable then
        let more := (s.parser c).parse (Bytes.ofText input) (some step.checkpoint)
        let patched := patch r s.cursor more
        move { s with result := some patched } patched ((s.cursor : Int) + 1)
      else s.fail (.cannotResume (step.index + 1) step.kind)

/-- Moves to the step with a number. -/
def moveToNumber (s : Session) (r : Simulator.Result) : List String → Outcome
  | [n] =>
    match Numeral.decimalInt? n.toList with
    | some k => s.move r (k - 1)
    | none => s.fail (.notANumber n)
  | _ => s.fail .stepUsage

/-- Carries out a command. -/
def perform (read : String → FileReply) (s : Session) : Command → Outcome
  | .quit => s.say ""
  | .help => s.say helpText
  | .load [path] => s.load read path
  | .load _ => s.fail .loadUsage
  | .parse input => s.parse input
  | .resume input => s.resume input
  | .grammar => s.withGrammar fun c => s.say (Report.grammar c.grammar)
  | .first => s.withGrammar fun c => s.say (Report.sets c.analysis)
  | .states => s.withGrammar fun c => s.say (Report.states c.automaton)
  | .table => s.withGrammar fun c => s.say (Report.table c.table)
  | .next => s.withParse fun _ r => s.move r ((s.cursor : Int) + 1)
  | .previous => s.withParse fun _ r => s.move r ((s.cursor : Int) - 1)
  | .firstStep => s.withParse fun _ r => s.move r 0
  | .last => s.withParse fun _ r => s.move r ((r.steps.length : Int) - 1)
  | .step arguments => s.withParse fun _ r => s.moveToNumber r arguments
  | .trace => s.withParse fun _ r => s.say (Report.trace r.steps)
  | .tree => s.withParse fun _ _ => s.withCurrent fun step => s.say (Report.forest step.forest)
  | .unknown name => s.withParse fun _ _ => s.fail (.unknownCommand name)

/-- The answer to a line: whether the session is to end, an error, and the
    output. -/
structure Reply where
  quit : Bool := false
  error : Option Error := none
  output : String := ""
  deriving DecidableEq, Repr

/-- Evaluates a line. -/
def eval (read : String → FileReply) (s : Session) (line : String) : Session × Reply :=
  match Command.ofLine line with
  | none => (s, {})
  | some command =>
    let o := s.perform read command
    (o.session, { quit := decide (command = .quit), error := o.error, output := o.output })

/-! ## A whole session -/

/-- The first words of a session. -/
def welcome : String :=
  Report.info "Welcome to slrsim, quit with <ctrl>D"

/-- Evaluates lines until one of them ends the session. -/
def converse (read : String → FileReply) (s : Session) : List String → Session × String
  | [] => (s, "")
  | line :: lines =>
    let (after, reply) := s.eval read line
    match reply.error with
    | some e =>
      let (final, output) := after.converse read lines
      (final, reply.output ++ Report.error e.message ++ output)
    | none =>
      if reply.quit then (after, reply.output)
      else
        let (final, output) := after.converse read lines
        (final, reply.output ++ output)

end Session

end ShiftReduce
