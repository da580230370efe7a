import ShiftReduce.Tree.Node

/-! # Growing parse trees — nodes with serial numbers -/

namespace ShiftReduce

namespace Tree

/-- Hands out node numbers and knows the label of leaves for the empty
    word. -/
structure Builder where
  epsilon : Symbol := Symbol.epsilon
  count : Nat := 0
  deriving DecidableEq, Repr

namespace Builder

/-- A leaf for a stretch of input; an empty value is none. -/
def leaf (b : Builder) (label : Symbol) (value : Bytes) (span : Span) : Node × Builder :=
  (.leaf b.count label (if value.isEmpty then none else some value) span,
    { b with count := b.count + 1 })

/-- A leaf for the empty word at a position. -/
def epsilonLeaf (b : Builder) (position : Nat) : Node × Builder :=
  (.leaf b.count b.epsilon none (Span.point position), { b with count := b.count + 1 })

/-- The span of nodes side by side. -/
def spanOf : List Node → Span
  | [] => Span.zero
  | n :: ns => ns.foldl (fun s m => s.extend m.span) n.span

/-- A node above children.  Without one of the children there is no node, but
    its number is used up. -/
def interior (b : Builder) (label : Symbol) (rule : Int) (children : List (Option Node)) :
    Option Node × Builder :=
  ((children.mapM fun c => c).map fun ns => .interior b.count label rule (spanOf ns) ns,
    { b with count := b.count + 1 })

end Builder

end Tree

end ShiftReduce
