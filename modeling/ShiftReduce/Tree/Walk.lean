import ShiftReduce.Tree.Node

/-! # Walking parse trees — a listener that is called on the way

    A walk enters every interior node, visits its children in one direction or
    the other, and leaves it with the values of the children in the order in
    which they stand.  A listener may refuse a node; depending on the mode its
    children are then passed over and have no values.  The result of a walk is
    the value of the root and the list of all calls in order.

    The children of a node are visited by an index that goes up or down; the
    value of a child is put at the place of the child, whenever it is visited. -/

namespace ShiftReduce

namespace Tree

/-- The order in which children are visited. -/
inductive Direction where
  | leftToRight
  | rightToLeft
  deriving DecidableEq, Repr

/-- Whether the children of refused nodes are visited all the same. -/
inductive Refusal where
  | ignored
  | respected
  deriving DecidableEq, Repr

namespace Direction

/-- What is added to the index of a child to get that of the next one. -/
def stride : Direction → Int
  | .leftToRight => 1
  | .rightToLeft => -1

/-- The index of the child that is visited first. -/
def first (count : Nat) : Direction → Int
  | .leftToRight => 0
  | .rightToLeft => count - 1

/-- The index behind that of the last child that is visited. -/
def stop (count : Nat) : Direction → Int
  | .leftToRight => count
  | .rightToLeft => -1

end Direction

/-- Where a node stands. -/
structure Place where
  level : Nat
  rule : Int
  deriving DecidableEq, Repr

/-- What is called on the way. -/
structure Listener (β : Type) where
  enter : Node → Place → Bool
  leave : Node → List (Option β) → Place → β
  terminal : Node → Place → β

/-- A call to a listener. -/
inductive Call (β : Type) where
  | enter (node : Node) (place : Place)
  | leave (node : Node) (values : List (Option β)) (place : Place)
  | terminal (node : Node) (place : Place)
  deriving Repr

variable {β : Type}

/-! ## The children of a node -/

/-- The values of children as far as they are known, and the calls so far. -/
structure Tour (β : Type) where
  values : List (Option β)
  calls : List (Call β)

namespace Tour

/-- Nothing is known of children that have not been visited. -/
def blank (count : Nat) : Tour β :=
  ⟨List.replicate count none, []⟩

/-- The walk of one more child is over. -/
def record (t : Tour β) (place : Nat) (walked : β × List (Call β)) : Tour β :=
  ⟨t.values.set place (some walked.1), t.calls ++ walked.2⟩

end Tour

/-- What is at an index. -/
def entryAt? {α : Type} (xs : List α) : Int → Option α
  | .ofNat k => xs[k]?
  | .negSucc _ => none

/-- Visits children by index, at most as many as the fuel says, of which the
    walks are given. -/
def sweepFrom (dir : Direction) (walks : List (β × List (Call β))) :
    Nat → Int → Tour β → Tour β
  | 0, _, t => t
  | fuel + 1, i, t =>
    if i = dir.stop walks.length then t
    else match entryAt? walks i with
      | none => t
      | some walked => sweepFrom dir walks fuel (i + dir.stride) (t.record i.toNat walked)

/-- Visits all children.  Every round takes the index one child further, so
    there are as many rounds as children. -/
def sweep (dir : Direction) (walks : List (β × List (Call β))) : Tour β :=
  sweepFrom dir walks walks.length (dir.first walks.length) (.blank walks.length)

/-! ## Trees -/

mutual

/-- Walks a tree at a level. -/
def walkFrom (l : Listener β) (dir : Direction) (refusal : Refusal) (level : Nat) :
    Node → β × List (Call β)
  | .leaf id label value span =>
    let n := Node.leaf id label value span
    let place : Place := ⟨level, -1⟩
    (l.terminal n place, [.terminal n place])
  | .interior id label rule span [] =>
    let n := Node.interior id label rule span []
    let place : Place := ⟨level, rule⟩
    (l.terminal n place, [.terminal n place])
  | .interior id label rule span (c :: cs) =>
    let n := Node.interior id label rule span (c :: cs)
    let place : Place := ⟨level, rule⟩
    let below :=
      if l.enter n place || refusal = .ignored then
        sweep dir (walkEach l dir refusal (level + 1) (c :: cs))
      else .blank (c :: cs).length
    (l.leave n below.values place,
      .enter n place :: below.calls ++ [.leave n below.values place])

/-- The walks of trees, in the order in which the trees stand. -/
def walkEach (l : Listener β) (dir : Direction) (refusal : Refusal) (level : Nat) :
    List Node → List (β × List (Call β))
  | [] => []
  | n :: ns => walkFrom l dir refusal level n :: walkEach l dir refusal level ns

end

/-- Walks a tree. -/
def walk (l : Listener β) (dir : Direction) (refusal : Refusal) (root : Node) :
    β × List (Call β) :=
  walkFrom l dir refusal 0 root

end Tree

end ShiftReduce
