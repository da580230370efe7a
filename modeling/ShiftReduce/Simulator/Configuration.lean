import ShiftReduce.Simulator.Move
import ShiftReduce.Tree.Builder
import ShiftReduce.Word

/-! # Configurations — the stack machine at one moment

    The stack holds frames of a state, a symbol and, above the bottom, the tree
    of the symbol; its top comes first.  A step records a move together with
    the configuration that it leads to.  A checkpoint is what of a step is
    needed to go on from it. -/

namespace ShiftReduce

namespace Simulator

/-- An entry of the stack. -/
structure Frame where
  state : Int
  symbol : Symbol
  node : Option Node
  deriving Repr

/-- The stacks, bottom first, and the number of the next step. -/
structure Checkpoint where
  states : List Int
  symbols : List Symbol
  step : Int
  deriving DecidableEq, Repr

/-- A move and the configuration behind it.  Between a reduction and its goto
    the new node is pending. -/
structure Step where
  index : Int
  move : Move
  stack : List Frame
  pending : Option Node
  rest : List Token
  token : Token
  deriving Repr

/-- The stack machine: the stack, the tokens that are not consumed, the last
    token of all, the number of the next step and the source of nodes. -/
structure Configuration where
  stack : List Frame
  rest : List Token
  last : Token
  index : Int
  builder : Tree.Builder
  deriving Repr

/-! ## Looking at steps -/

namespace Step

/-- The kind of the move. -/
def kind (s : Step) : StepKind :=
  s.move.kind

/-- The states on the stack, bottom first. -/
def states (s : Step) : List Int :=
  s.stack.reverse.map Frame.state

/-- The symbols on the stack, bottom first. -/
def symbols (s : Step) : List Symbol :=
  s.stack.reverse.map Frame.symbol

/-- The input that is left, the end marker included. -/
def input (s : Step) : List Bytes :=
  s.rest.map Token.shown

/-- The trees on the stack, bottom first, and the pending one. -/
def forest (s : Step) : Forest :=
  s.stack.reverse.filterMap Frame.node ++ s.pending.toList

/-- What is needed to go on from behind the step. -/
def checkpoint (s : Step) : Checkpoint :=
  { states := s.states, symbols := s.symbols, step := Word.next s.index }

/-- The input that is left, without the end marker, as one byte string. -/
def remainingInput (s : Step) : Bytes :=
  let input := s.input
  if input.getLast? = some (Bytes.ofText Symbol.endMarker) then Bytes.joinBlank input.dropLast
  else Bytes.joinBlank input

end Step

/-! ## Beginning a run -/

/-- The tokens with the end of the input behind them, unless they end so. -/
def closeTokens (tokens : List Token) : List Token :=
  match tokens.getLast? with
  | none => [Token.endAt 0]
  | some t => if t.isEnd then tokens else tokens ++ [Token.endAt t.span.stop]

/-- Frames for symbols, bottom first, put on a stack.  The end markers at the
    bottom have no nodes; every symbol above them gets a leaf. -/
def restoreFrames (bottom : Bool) (stack : List Frame) (b : Tree.Builder) :
    List (Int × Symbol) → List Frame × Tree.Builder
  | [] => (stack, b)
  | (state, symbol) :: above =>
    if bottom && symbol == Symbol.endMarker then
      restoreFrames true ({ state, symbol, node := none } :: stack) b above
    else
      let (leaf, b') := b.leaf symbol [] Span.zero
      restoreFrames false ({ state, symbol, node := some leaf } :: stack) b' above

/-- A list made longer at its front. -/
def padFront {α : Type} (filler : α) (length : Nat) (xs : List α) : List α :=
  List.replicate (length - xs.length) filler ++ xs

/-- The stack of a checkpoint.  The shorter list of states and symbols gets
    more of what is at the bottom. -/
def Checkpoint.restore (k : Checkpoint) : List Frame × Tree.Builder :=
  let height := max k.states.length k.symbols.length
  restoreFrames true [] {}
    ((padFront 0 height k.states).zip (padFront Symbol.endMarker height k.symbols))

/-- The stack of a run that begins afresh. -/
def freshStack : List Frame :=
  [{ state := 0, symbol := Symbol.endMarker, node := none }]

namespace Configuration

/-- The configuration at the beginning of a run, afresh or behind a
    checkpoint. -/
def start (tokens : List Token) (resume : Option Checkpoint) : Configuration :=
  let rest := closeTokens tokens
  let last := rest.getLastD (Token.endAt 0)
  match resume with
  | none => { stack := freshStack, rest, last, index := 0, builder := {} }
  | some k =>
    if k.states.isEmpty && k.symbols.isEmpty then
      { stack := freshStack, rest, last, index := k.step, builder := {} }
    else
      let (stack, builder) := k.restore
      { stack, rest, last, index := k.step, builder }

/-- The state on top of the stack. -/
def state (c : Configuration) : Int :=
  (c.stack.head?.map Frame.state).getD 0

/-- The next token; behind the last one it stays the last. -/
def lookahead (c : Configuration) : Token :=
  c.rest.headD c.last

/-- The trees on the stack, bottom first. -/
def forest (c : Configuration) : Forest :=
  c.stack.reverse.filterMap Frame.node

/-- Records a move that led here. -/
def record (c : Configuration) (move : Move) (pending : Option Node) : Step :=
  { index := c.index, move, stack := c.stack, pending, rest := c.rest, token := c.lookahead }

/-- The configuration after a step has been recorded. -/
def tick (c : Configuration) : Configuration :=
  { c with index := Word.next c.index }

end Configuration

end Simulator

end ShiftReduce
