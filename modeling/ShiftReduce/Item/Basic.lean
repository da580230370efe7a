import ShiftReduce.Grammar.Basic
import ShiftReduce.Sorting
import ShiftReduce.Word

/-! # Items — rules with a dot

    An LR(0) item is a rule, given by its number, and the position of a dot in
    its body.  Numbers and positions need not fit the grammar: an item of an
    unknown rule expects nothing, and so does an item whose dot is not inside
    the body. -/

namespace ShiftReduce

/-- A rule number with the position of the dot. -/
structure Item where
  rule : Int
  dot : Int
  deriving DecidableEq, Repr

namespace Item

/-- The item of rule 0 with the dot in front. -/
def start : Item :=
  ⟨0, 0⟩

/-- The item of rule 0 with the dot behind its only symbol. -/
def accepting : Item :=
  ⟨0, 1⟩

/-- The symbol behind the dot. -/
def next? (g : Grammar) (i : Item) : Option Symbol :=
  match g.rule? i.rule, i.dot with
  | some r, .ofNat d => r.body[d]?
  | _, _ => none

/-- The symbol behind the dot, and the empty text, which is no symbol of a
    grammar, if there is none. -/
def peek (g : Grammar) (i : Item) : Symbol :=
  (i.next? g).getD ""

/-- Whether nothing stands behind the dot. -/
def isReduction (g : Grammar) (i : Item) : Bool :=
  (i.next? g).isNone

/-- The item with the dot one position further. -/
def advance (i : Item) : Item :=
  { i with dot := Word.next i.dot }

/-- Whether the symbol behind the dot can be looked up: the dot does not stand
    before the beginning of a body that has symbols. -/
def isReadable (g : Grammar) (i : Item) : Bool :=
  match g.rule? i.rule with
  | some r => r.body.isEmpty || 0 ≤ i.dot
  | none => true

/-- The symbols before the dot.  There are none if the rule is unknown or its
    body is empty, and the question has no answer if the dot is outside of a
    body that has symbols. -/
def before? (g : Grammar) (i : Item) : Option (List Symbol) :=
  match g.rule? i.rule with
  | none => some []
  | some r =>
    if r.body.isEmpty then some []
    else if 0 ≤ i.dot && i.dot ≤ r.body.length then some (r.body.take i.dot.toNat)
    else none

/-- The item as a pair of numbers. -/
def text (i : Item) : String :=
  "[" ++ toString i.rule ++ "•" ++ toString i.dot ++ "]"

/-- The body from position `k` on, with the dot before the symbol that it
    points to. -/
def dotted (dot : Int) : Int → List Symbol → String
  | k, [] => if k ≤ dot then " •" else ""
  | k, s :: rest => (if k == dot then " •" else "") ++ " " ++ s ++ dotted dot (k + 1) rest

/-- The item as a rule with a dot. -/
def format (g : Grammar) (i : Item) : String :=
  match g.rule? i.rule with
  | none => i.text
  | some r => r.lhs ++ " ➞" ++ dotted i.dot 0 r.body

/-- Items are ordered by rule, then by dot. -/
def le (i j : Item) : Bool :=
  if i.rule = j.rule then i.dot ≤ j.dot else i.rule ≤ j.rule

end Item

/-- A set of items, each listed once. -/
abbrev ItemSet := List Item

namespace ItemSet

/-- The items by rule and dot. -/
def sorted (s : ItemSet) : List Item :=
  sortBy Item.le s

/-- Whether two sets have the same items. -/
def same (s t : ItemSet) : Bool :=
  s.length == t.length && t.all fun i => s.contains i

/-- The items in braces. -/
def text (g : Grammar) (s : ItemSet) : String :=
  match sorted s with
  | [] => "\x7b \x7d"
  | items => "\x7b " ++ ", ".intercalate (items.map (Item.format g)) ++ " \x7d"

end ItemSet

end ShiftReduce
