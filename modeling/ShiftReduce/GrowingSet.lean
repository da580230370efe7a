import ShiftReduce.GrowingSet.Index
import ShiftReduce.Overwriting
import ShiftReduce.Sorting

/-! # Growing sets — insertion order, and a cursor that sees later additions

    The elements of a growing set stand in the order in which they were added,
    and an index, which decides whether a value is an element, has their places.
    A cursor counts the elements that have been handed out since the iteration
    began, and stands one past the size once the iteration has ended.  Elements
    that are added behind the cursor are handed out too, so a closure is one
    pass over a set that grows meanwhile; removing an element that was handed
    out moves the cursor back. -/

namespace ShiftReduce

/-- A set in insertion order with the places of its elements and an iteration
    cursor. -/
structure GrowingSet (α : Type) where
  items : List α
  index : GrowingSet.Index α := {}
  cursor : Nat := 0
  deriving DecidableEq, Repr

namespace GrowingSet

variable {α : Type} [DecidableEq α]

/-- The set without elements. -/
def empty : GrowingSet α :=
  { items := [] }

/-- The elements in the order of insertion. -/
def toList (s : GrowingSet α) : List α :=
  s.items

/-- Whether a value is an element. -/
def contains (s : GrowingSet α) (x : α) : Bool :=
  (s.index.place? x).isSome

/-- The number of elements. -/
def size (s : GrowingSet α) : Nat :=
  s.items.length

/-- Whether there are no elements. -/
def isEmpty (s : GrowingSet α) : Bool :=
  s.items.isEmpty

/-- The element that was inserted first. -/
def first? (s : GrowingSet α) : Option α :=
  s.items.head?

/-! ## Changing a set -/

/-- Adds a value behind all others unless it is an element already. -/
def add (s : GrowingSet α) (x : α) : GrowingSet α :=
  if s.contains x then s
  else { s with items := s.items ++ [x], index := s.index.note x s.items.length }

/-- Adds values in order. -/
def addAll (s : GrowingSet α) (xs : List α) : GrowingSet α :=
  xs.foldl add s

/-- The set of the members of a list. -/
def ofList (xs : List α) : GrowingSet α :=
  empty.addAll xs

/-- Removes a value.  The elements behind it move up by one place, and the
    cursor stays with the element that was handed out last. -/
def remove (s : GrowingSet α) (x : α) : GrowingSet α :=
  match s.index.place? x with
  | none => s
  | some k =>
    let items := s.items.eraseIdx k
    { items
      index := (s.index.forget x).noteFrom k (items.drop k)
      cursor := if k < s.cursor then s.cursor - 1 else s.cursor }

/-- A set with the same elements whose iteration has not begun. -/
def copy (s : GrowingSet α) : GrowingSet α :=
  ofList s.items

/-- Adds the elements of another set. -/
def union (s t : GrowingSet α) : GrowingSet α :=
  s.addAll t.items

/-- Removes the elements of another set. -/
def difference (s t : GrowingSet α) : GrowingSet α :=
  t.items.foldl remove s

/-- Adds the elements of a set that are new here, after they have been singled
    out in that set. -/
def absorb (s t : GrowingSet α) : GrowingSet α :=
  let new := t.difference s
  if new.isEmpty then s else s.union new

/-- Removes the elements that do not satisfy a test. -/
def keep (s : GrowingSet α) (test : α → Bool) : GrowingSet α :=
  s.items.foldl (fun t x => if test x then t else t.remove x) s

/-- The array that the elements of a set stand in front of, after a value has been
    removed.  The elements behind the value are written over those from its place
    on, and what is behind them stays. -/
def closeGap (s : GrowingSet α) (x : α) (array : List α) : List α :=
  match s.index.place? x with
  | none => array
  | some k => overwrite array k ((array.take s.size).drop (k + 1))

/-- Removes what stands in the array of a set at as many places as there are left,
    from place `k` on; every removal changes the array that is read. -/
def drainFrom : Nat → Nat → List α → GrowingSet α → GrowingSet α
  | 0, _, _, s => s
  | count + 1, k, array, s =>
    match array[k]? with
    | none => s
    | some x => drainFrom count (k + 1) (s.closeGap x array) (s.remove x)

/-- Removes a set from itself in place: as many places are read as there were
    elements in the beginning. -/
def drain (s : GrowingSet α) : GrowingSet α :=
  drainFrom s.size 0 s.items s

/-! ## Looking at a set -/

/-- The elements in a stable order. -/
def sorted (s : GrowingSet α) (le : α → α → Bool) : List α :=
  sortBy le s.items

/-- Whether two sets have the same elements, in whatever order. -/
def sameElements (s t : GrowingSet α) : Bool :=
  s.size == t.size && t.items.all s.contains

/-! ## Iteration -/

/-- Begins an iteration. -/
def restart (s : GrowingSet α) : GrowingSet α :=
  { s with cursor := 0 }

/-- Moves the cursor on, and tells whether an element is under it then. -/
def advance (s : GrowingSet α) : Bool × GrowingSet α :=
  if s.size < s.cursor then (false, s)
  else (decide (s.cursor < s.size), { s with cursor := s.cursor + 1 })

/-- The element under the cursor. -/
def current? (s : GrowingSet α) : Option α :=
  match s.cursor with
  | 0 => none
  | k + 1 => s.items[k]?

/-- Hands out elements one after the other and adds what each of them asks
    for, at most as often as the fuel says. -/
def closeUnder (demands : α → List α) : Nat → GrowingSet α → GrowingSet α
  | 0, s => s
  | fuel + 1, s =>
    match s.advance with
    | (false, t) => t
    | (true, t) =>
      match t.current? with
      | none => t
      | some x => closeUnder demands fuel (t.absorb (ofList (demands x)))

end GrowingSet

end ShiftReduce
