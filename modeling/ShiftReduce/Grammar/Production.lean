import ShiftReduce.Symbol

/-! # Productions — numbered rules of a grammar

    A production replaces its left side by its body.  The body of an
    ε-production is the empty list; only its written form shows `ε`. -/

namespace ShiftReduce

/-- A rule `lhs ➞ body` with its serial number. -/
structure Production where
  id : Int
  lhs : Symbol
  body : List Symbol
  deriving DecidableEq, Repr

namespace Production

/-- The production with a written right side, where `ε` alone stands for the
    empty body. -/
def ofWritten (id : Int) (lhs : Symbol) (rhs : List Symbol) : Production :=
  { id, lhs, body := if rhs = [Symbol.epsilon] then [] else rhs }

/-- Whether the body is empty. -/
def isEpsilon (p : Production) : Bool :=
  p.body.isEmpty

/-- The right side as it is written. -/
def written (p : Production) : List Symbol :=
  if p.body.isEmpty then [Symbol.epsilon] else p.body

/-- The number of symbols that a reduction takes from the stack. -/
def length (p : Production) : Nat :=
  p.body.length

/-- The rule as one line of text. -/
def text (p : Production) : String :=
  p.lhs ++ " ➞ " ++ " ".intercalate p.written

/-- A body that is written with nothing is the empty word. -/
@[simp] theorem ofWritten_nil (id : Int) (lhs : Symbol) :
    (ofWritten id lhs []).body = [] := rfl

/-- A body that is written as `ε` is the empty word, too. -/
@[simp] theorem ofWritten_epsilon (id : Int) (lhs : Symbol) :
    (ofWritten id lhs [Symbol.epsilon]).body = [] := rfl

end Production

end ShiftReduce
