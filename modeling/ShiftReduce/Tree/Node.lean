import ShiftReduce.Token.Basic

/-! # Parse trees — leaves for input, interior nodes for reductions

    A leaf stands for a shifted token or for the empty word; an interior node
    stands for a reduction and has the nodes of the reduced symbols as its
    children.  Nodes of one run have different numbers. -/

namespace ShiftReduce

/-- A node of a parse tree. -/
inductive Node where
  | leaf (id : Nat) (label : Symbol) (value : Option Bytes) (span : Span)
  | interior (id : Nat) (label : Symbol) (rule : Int) (span : Span) (children : List Node)
  deriving Repr

namespace Node

/-- The number of a node. -/
def id : Node → Nat
  | .leaf id _ _ _ => id
  | .interior id _ _ _ _ => id

/-- The grammar symbol of a node. -/
def label : Node → Symbol
  | .leaf _ label _ _ => label
  | .interior _ label _ _ _ => label

/-- The input that a leaf stands for. -/
def value? : Node → Option Bytes
  | .leaf _ _ value _ => value
  | .interior .. => none

/-- The number of the rule of a reduction, and minus one for leaves. -/
def rule : Node → Int
  | .leaf .. => -1
  | .interior _ _ rule _ _ => rule

/-- The input that a node covers. -/
def span : Node → Span
  | .leaf _ _ _ span => span
  | .interior _ _ _ span _ => span

/-- The nodes directly below. -/
def children : Node → List Node
  | .leaf .. => []
  | .interior _ _ _ _ children => children

/-- Whether there is nothing below. -/
def isLeaf (n : Node) : Bool :=
  n.children.isEmpty

/-- The label and, if it differs, the value of a node without children. -/
def leafText (label : Symbol) (value : Option Bytes) : String :=
  match value with
  | some v => if v = Bytes.ofText label then label else label ++ ":" ++ Bytes.toText v
  | none => label

mutual

/-- A tree in brackets. -/
def text : Node → String
  | .leaf _ label value _ => leafText label value
  | .interior _ label _ _ [] => label
  | .interior _ label _ _ (c :: cs) => "(" ++ label ++ textBelow (c :: cs) ++ ")"

/-- Trees side by side, each behind a blank. -/
def textBelow : List Node → String
  | [] => ""
  | n :: ns => " " ++ text n ++ textBelow ns

end

mutual

/-- The number of nodes. -/
def size : Node → Nat
  | .leaf .. => 1
  | .interior _ _ _ _ children => 1 + sizeAll children

/-- The number of nodes of several trees. -/
def sizeAll : List Node → Nat
  | [] => 0
  | n :: ns => size n + sizeAll ns

end

mutual

/-- The nodes without children, from left to right. -/
def leaves : Node → List Node
  | .leaf id label value span => [.leaf id label value span]
  | .interior id label rule span [] => [.interior id label rule span []]
  | .interior _ _ _ _ (c :: cs) => leavesAll (c :: cs)

/-- The nodes without children of several trees. -/
def leavesAll : List Node → List Node
  | [] => []
  | n :: ns => leaves n ++ leavesAll ns

end

end Node

/-- Trees side by side. -/
abbrev Forest := List Node

namespace Forest

/-- The labels of the roots. -/
def labels (f : Forest) : List Symbol :=
  f.map Node.label

/-- The trees in square brackets. -/
def text (f : Forest) : String :=
  "[" ++ " ".intercalate (f.map Node.text) ++ "]"

end Forest

end ShiftReduce
