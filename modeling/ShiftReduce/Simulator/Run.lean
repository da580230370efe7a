import ShiftReduce.Grammar.Augment
import ShiftReduce.Simulator.Configuration
import ShiftReduce.Table.Basic
import ShiftReduce.Token.Lexer

/-! # Runs — a shift-reduce parser and its trace

    In every round the parser looks up the action for the state on top and the
    next token.  A shift is one step; a reduction is two, the second being the
    goto.  A run ends with acceptance, with an error or at the limit of rounds,
    and always has a last step that says so. -/

namespace ShiftReduce

namespace Simulator

/-- What one round comes to: the run goes on, or it ends. -/
inductive Turn where
  | goesOn (steps : List Step) (next : Configuration)
  | ends (steps : List Step) (accepted : Bool) (final : Configuration)
  deriving Repr

/-- A run ends with one more step. -/
def Configuration.stop (c : Configuration) (move : Move) (accepted : Bool) : Turn :=
  .ends [c.record move none] accepted c

/-- Puts the next token on the stack. -/
def shift (c : Configuration) (target : Int) : Turn :=
  let token := c.lookahead
  let (leaf, builder) :=
    c.builder.leaf token.symbol (if token.isEnd then [] else token.lexeme) token.span
  let next : Configuration :=
    { c with
      stack := { state := target, symbol := token.symbol, node := some leaf } :: c.stack
      rest := c.rest.tail
      builder }
  .goesOn [next.record (.shift token.symbol target) none] next.tick

/-- The nodes that a reduction takes, left to right.  The empty body takes a new
    leaf at the next token. -/
def handle (c : Configuration) (r : Production) : List (Option Node) × Tree.Builder :=
  if r.length = 0 then
    let (leaf, builder) := c.builder.epsilonLeaf c.lookahead.span.start
    ([some leaf], builder)
  else ((c.stack.take r.length).reverse.map Frame.node, c.builder)

/-- Puts the left side of a reduced rule on the stack. -/
def goTo (t : Table) (c : Configuration) (r : Production) (node : Node) : Turn :=
  let reduced := c.record (.reduce r) (some node)
  let c := c.tick
  match t.goto? c.state r.lhs with
  | none => .ends [reduced, c.record (.gotoError r c.state) (some node)] false c
  | some target =>
    let next : Configuration :=
      { c with stack := { state := target, symbol := r.lhs, node := some node } :: c.stack }
    .goesOn [reduced, next.record (.goTo r c.state target) none] next.tick

/-- Takes the body of a rule from the stack and puts its left side there. -/
def reduce (t : Table) (c : Configuration) (r : Production) : Turn :=
  if c.stack.length ≤ r.length then c.stop (.fault (.stackUnderflow r)) false
  else
    let (children, builder) := handle c r
    let (node?, builder) := builder.interior r.lhs r.id children
    let popped : Configuration := { c with stack := c.stack.drop r.length, builder }
    match node? with
    | none => popped.stop (.fault .absentNode) false
    | some node => goTo t popped r node

/-- One round of the parser. -/
def turn (g : Grammar) (t : Table) (c : Configuration) : Turn :=
  match t.action? c.state c.lookahead.symbol with
  | none => c.stop (.syntaxError c.state c.lookahead) false
  | some .accept => c.stop .accept true
  | some (.shift target) => shift c target
  | some (.reduce p) =>
    match g.rule? p with
    | none => c.stop (.fault (.unknownProduction p)) false
    | some r => reduce t c r

/-- The steps of a run, whether it accepted, and the trees that were left on
    the stack. -/
structure Result where
  steps : List Step
  accepted : Bool
  forest : Forest
  deriving Repr

namespace Result

/-- The last step. -/
def last? (r : Result) : Option Step :=
  r.steps.getLast?

/-- The kind of the last step. -/
def lastKind (r : Result) : StepKind :=
  (r.last?.map Step.kind).getD .internalError

/-- The label of the last step. -/
def lastLabel (r : Result) : String :=
  (r.last?.map fun s => s.move.label).getD "no steps"

/-- The parse tree of an accepted input. -/
def root? (r : Result) : Option Node :=
  match r.accepted, r.forest with
  | true, [n] => some n
  | _, _ => none

/-- Turns a last step that reports a mismatch into a failure, with the number
    of steps before it. -/
def strict (r : Result) : Except (Fault × Nat) Result :=
  match r.last?.map Step.move with
  | some (.fault f) => if f.isMismatch then .error (f, r.steps.length - 1) else .ok r
  | _ => .ok r

end Result

/-- Plays rounds until the run ends, at most as many as the fuel says.  The
    steps that have been recorded come last step first. -/
def play (g : Grammar) (t : Table) (limit : Nat) : Nat → Configuration → List Step → Result
  | 0, c, recorded =>
    { steps := (c.record (.fault (.iterationLimit limit)) none :: recorded).reverse
      accepted := false
      forest := c.forest }
  | fuel + 1, c, recorded =>
    match turn g t c with
    | .goesOn steps next => play g t limit fuel next (steps.reverse ++ recorded)
    | .ends steps accepted final =>
      { steps := (steps.reverse ++ recorded).reverse, accepted, forest := final.forest }

end Simulator

/-- A parser: a grammar, a table and the number of rounds that a run may
    have. -/
structure Simulator where
  grammar : Option Grammar
  table : Option Table
  limit : Nat
  deriving DecidableEq, Repr

namespace Simulator

/-- The number of rounds unless something else is wanted. -/
def defaultLimit : Nat := 10000

/-- The first wish that is positive, and the default if there is none. -/
def limitFrom (wishes : List Int) : Nat :=
  match wishes.find? fun n => decide (0 < n) with
  | some n => n.toNat
  | none => defaultLimit

/-- The parser for a grammar, augmented if need be and possible, and a
    table. -/
def make (grammar : Option Grammar) (table : Option Table) (limit : Nat) : Simulator :=
  { grammar := grammar.map fun g => (g.ensureAugmented.toOption).getD g, table, limit }

/-- Parses tokens, afresh or behind a checkpoint. -/
def parseTokens (p : Simulator) (tokens : List Token) (resume : Option Checkpoint) : Result :=
  let c := Configuration.start tokens resume
  match p.grammar, p.table with
  | some g, some t => play g t p.limit p.limit c []
  | _, _ =>
    { steps := [c.record (.fault .notInitialized) none], accepted := false, forest := c.forest }

/-- Parses input, cut at the terminals of the grammar. -/
def parse (p : Simulator) (input : Bytes) (resume : Option Checkpoint) : Result :=
  match p.grammar with
  | some g => p.parseTokens (Lexer.tokenize g.terminals input) resume
  | none => p.parseTokens [] resume

end Simulator

end ShiftReduce
