import ShiftReduce.Symbol

/-! # Sets of symbols — sorted lists, and maps from symbols to them

    A set of symbols is a strictly increasing list, so equal sets are equal
    lists.  A map keeps its keys in the order in which they were first put. -/

namespace ShiftReduce

/-- A set of symbols as a strictly increasing list. -/
abbrev SymbolSet := List Symbol

namespace SymbolSet

/-- The set with one more member. -/
def add (x : Symbol) : SymbolSet → SymbolSet
  | [] => [x]
  | y :: ys => if x = y then y :: ys else if x < y then x :: y :: ys else y :: add x ys

/-- The members of both sets. -/
def union (s t : SymbolSet) : SymbolSet :=
  t.foldl (fun u x => add x u) s

/-- The set without one member. -/
def without (x : Symbol) (s : SymbolSet) : SymbolSet :=
  s.filter fun y => y != x

/-- Adding a symbol puts it among the others. -/
theorem mem_add {x z : Symbol} {s : SymbolSet} : z ∈ add x s ↔ z = x ∨ z ∈ s := by
  induction s with
  | nil => simp [add]
  | cons y ys ih =>
    unfold add
    by_cases hxy : x = y
    · subst hxy
      simp
    · rw [if_neg hxy]
      by_cases hlt : x < y
      · rw [if_pos hlt]
        simp
      · rw [if_neg hlt, List.mem_cons, ih, List.mem_cons]
        exact or_left_comm

/-- A union has the symbols of both sets. -/
theorem mem_union {z : Symbol} {s t : SymbolSet} : z ∈ union s t ↔ z ∈ s ∨ z ∈ t := by
  unfold union
  induction t generalizing s with
  | nil => simp
  | cons y ys ih =>
    rw [List.foldl_cons, ih, mem_add, List.mem_cons]
    constructor
    · rintro ((h | h) | h)
      · exact Or.inr (Or.inl h)
      · exact Or.inl h
      · exact Or.inr (Or.inr h)
    · rintro (h | h | h)
      · exact Or.inl (Or.inr h)
      · exact Or.inl (Or.inl h)
      · exact Or.inr h

/-- What has been taken out is gone, and nothing else is. -/
theorem mem_without {x z : Symbol} {s : SymbolSet} : z ∈ without x s ↔ z ∈ s ∧ z ≠ x := by
  simp [without]

end SymbolSet

/-- A map from symbols to sets of symbols. -/
abbrev SymbolMap := List (Symbol × SymbolSet)

namespace SymbolMap

/-- The set of a key, empty if there is none. -/
def get (m : SymbolMap) (k : Symbol) : SymbolSet :=
  (m.lookup k).getD []

/-- Gives a key a set, in place of the one that it had. -/
def put (k : Symbol) (s : SymbolSet) : SymbolMap → SymbolMap
  | [] => [(k, s)]
  | e :: rest => if e.1 = k then (k, s) :: rest else e :: put k s rest

/-- Adds members to the set of a key. -/
def extend (k : Symbol) (s : SymbolSet) (m : SymbolMap) : SymbolMap :=
  put k (SymbolSet.union (get m k) s) m

/-- Whether two maps have the same keys and the same sets. -/
def agree (m n : SymbolMap) : Bool :=
  m.length == n.length && m.all fun e => n.lookup e.1 == some e.2

/-- A key has the set that was put there last. -/
@[simp] theorem lookup_put_self (k : Symbol) (s : SymbolSet) (m : SymbolMap) :
    (put k s m).lookup k = some s := by
  induction m with
  | nil => simp [put]
  | cons e rest ih =>
    obtain ⟨k', s'⟩ := e
    unfold put
    by_cases h : k' = k
    · simp [h]
    · simp only [if_neg h, List.lookup_cons]
      have hne : (k == k') = false := by simpa using fun hk => h hk.symm
      rw [hne]
      exact ih

/-- Putting a set under one key leaves the others as they are. -/
theorem lookup_put_of_ne {k j : Symbol} (h : j ≠ k) (s : SymbolSet) (m : SymbolMap) :
    (put k s m).lookup j = m.lookup j := by
  induction m with
  | nil =>
    have hne : (j == k) = false := by simpa using h
    simp only [put, List.lookup_cons, hne]
  | cons e rest ih =>
    obtain ⟨k', s'⟩ := e
    unfold put
    by_cases hk : k' = k
    · subst hk
      have hne : (j == k') = false := by simpa using h
      simp only [if_pos, List.lookup_cons, hne]
    · simp only [if_neg hk, List.lookup_cons]
      cases (j == k') with
      | true => rfl
      | false => exact ih

end SymbolMap

end ShiftReduce
