import ShiftReduce.GrowingSet

/-! # Named sets — operations on two sets of which one may be the other

    A registry keeps growing sets under names.  An operation changes the set
    that it names first; its second operand may be absent, and may be the very
    set that is changed.  A registry is the work of the operations that were
    carried out on it. -/

namespace ShiftReduce

namespace GrowingSet

/-- Growing sets under names. -/
structure Registry (α : Type) where
  sets : List (String × GrowingSet α) := []
  deriving DecidableEq, Repr

namespace Registry

variable {α : Type}

/-- The set with a name; a set that was never put is empty. -/
def get (r : Registry α) (name : String) : GrowingSet α :=
  (r.sets.lookup name).getD empty

/-- Puts a set under a name. -/
def put (r : Registry α) (name : String) (s : GrowingSet α) : Registry α :=
  { sets := (name, s) :: r.sets.filter fun e => e.1 != name }

/-- A name stands for the set that was put there last. -/
@[simp] theorem get_put_self (r : Registry α) (name : String) (s : GrowingSet α) :
    (r.put name s).get name = s := by
  rw [get, put, lookup_entry, if_pos rfl]
  rfl

/-- Putting a set under one name does not touch the others. -/
theorem get_put_of_ne {name other : String} (h : other ≠ name) (r : Registry α)
    (s : GrowingSet α) : (r.put name s).get other = r.get other := by
  rw [get, get, put, lookup_entry, if_neg h, lookup_filter_ne, if_neg h]

variable [DecidableEq α]

/-- Changes the set with a name. -/
def update (r : Registry α) (name : String) (f : GrowingSet α → GrowingSet α) : Registry α :=
  r.put name (f (r.get name))

/-- Adds the elements of another set. -/
def union (r : Registry α) (name : String) (other : Option String) : Registry α :=
  match other with
  | none => r
  | some n => r.update name fun s => s.union (r.get n)

/-- Removes the elements of another set.  A set that is removed from itself
    changes while it is read. -/
def difference (r : Registry α) (name : String) (other : Option String) : Registry α :=
  match other with
  | none => r
  | some n =>
    if n = name then r.update name drain else r.update name fun s => s.difference (r.get n)

/-- Whether two sets have the same elements; a set differs from an absent
    one. -/
def same (r : Registry α) (name : String) (other : Option String) : Bool :=
  match other with
  | none => false
  | some n => (r.get name).sameElements (r.get n)

/-- What can be done to the sets of a registry. -/
inductive Operation (α : Type) where
  | new (name : String)
  | copy (name source : String)
  | add (name : String) (values : List α)
  | remove (name : String) (value : α)
  | union (name : String) (other : Option String)
  | difference (name : String) (other : Option String)
  | keep (name : String) (test : α → Bool)
  | restart (name : String)
  | advance (name : String)

/-- The set that an operation changes. -/
def Operation.name : Operation α → String
  | .new name | .copy name _ | .add name _ | .remove name _ | .union name _ | .difference name _
  | .keep name _ | .restart name | .advance name => name

/-- Carries out an operation. -/
def perform (r : Registry α) : Operation α → Registry α
  | .new name => r.put name empty
  | .copy name source => r.put name (r.get source).copy
  | .add name values => r.update name fun s => s.addAll values
  | .remove name value => r.update name fun s => s.remove value
  | .union name other => r.union name other
  | .difference name other => r.difference name other
  | .keep name test => r.update name fun s => s.keep test
  | .restart name => r.update name restart
  | .advance name => r.update name fun s => s.advance.2

/-- The registry after operations, carried out one after the other. -/
def ofOperations (operations : List (Operation α)) : Registry α :=
  operations.foldl perform {}

end Registry

end GrowingSet

end ShiftReduce
