/-! # Indexes — the places of values

    An index is a finite map from values to places.  Noting a place replaces the
    one that was noted before, so a list of values can be noted anew from some
    place on after values have moved. -/

namespace ShiftReduce

namespace GrowingSet

/-- The first entry is found, or it is passed over. -/
theorem lookup_entry {κ β : Type} [DecidableEq κ] (key : κ) (value : β) (entries : List (κ × β))
    (k : κ) : ((key, value) :: entries).lookup k
      = if k = key then some value else entries.lookup k := by
  rw [List.lookup_cons]
  by_cases hk : k = key
  · rw [beq_iff_eq.mpr hk, if_pos hk]
  · rw [beq_false_of_ne hk, if_neg hk]

/-- Without the entries of a key, that key is not found, and all others are found
    as before. -/
theorem lookup_filter_ne {κ β : Type} [DecidableEq κ] (entries : List (κ × β)) (key k : κ) :
    (entries.filter fun e => e.1 != key).lookup k
      = if k = key then none else entries.lookup k := by
  induction entries with
  | nil => simp
  | cons e entries ih =>
      by_cases he : e.1 = key
      · -- the entry is dropped, and only the key that is gone would have found it
        rw [List.filter_cons_of_neg (by simpa using he), ih, lookup_entry, he]
        by_cases hk : k = key
        · rw [if_pos hk, if_pos hk]
        · rw [if_neg hk, if_neg hk, if_neg hk]
      · rw [List.filter_cons_of_pos (by simpa using he), lookup_entry, ih, lookup_entry]
        by_cases hk : k = e.1
        · rw [if_pos hk, if_pos hk, if_neg (by rw [hk]; exact he)]
        · rw [if_neg hk, if_neg hk]

/-- The places of values, each value once. -/
structure Index (α : Type) where
  entries : List (α × Nat) := []
  deriving DecidableEq, Repr

namespace Index

variable {α : Type} [DecidableEq α]

/-- The place of a value. -/
def place? (p : Index α) (x : α) : Option Nat :=
  p.entries.lookup x

/-- Takes a value out of the index. -/
def forget (p : Index α) (x : α) : Index α :=
  { entries := p.entries.filter fun e => e.1 != x }

/-- Puts a value at a place, wherever it was before. -/
def note (p : Index α) (x : α) (place : Nat) : Index α :=
  { entries := (x, place) :: (p.forget x).entries }

/-- Puts values one behind the other, the first one at a place. -/
def noteFrom (p : Index α) : Nat → List α → Index α
  | _, [] => p
  | place, x :: xs => (p.note x place).noteFrom (place + 1) xs

theorem place?_empty (x : α) : place? {} x = none :=
  rfl

/-- A value that is forgotten has no place, and the others keep theirs. -/
@[simp] theorem place?_forget (p : Index α) (x y : α) :
    (p.forget x).place? y = if y = x then none else p.place? y :=
  lookup_filter_ne p.entries x y

/-- A value has the place that was noted for it last. -/
@[simp] theorem place?_note (p : Index α) (x y : α) (place : Nat) :
    (p.note x place).place? y = if y = x then some place else p.place? y := by
  show ((x, place) :: (p.forget x).entries).lookup y = _
  rw [lookup_entry]
  by_cases hy : y = x
  · rw [if_pos hy, if_pos hy]
  · rw [if_neg hy, if_neg hy, show (p.forget x).entries.lookup y = (p.forget x).place? y from rfl,
      place?_forget, if_neg hy]

/-- Values that differ from each other are noted where they stand, and what is
    not among them stays where it was. -/
theorem place?_noteFrom {xs : List α} (hxs : xs.Nodup) (p : Index α) (place : Nat) (y : α)
    (k : Nat) : (p.noteFrom place xs).place? y = some k ↔
      (∃ i, xs[i]? = some y ∧ k = place + i) ∨ (y ∉ xs ∧ p.place? y = some k) := by
  induction xs generalizing p place with
  | nil => simp [noteFrom]
  | cons x xs ih =>
      obtain ⟨hx, hxs⟩ := List.nodup_cons.mp hxs
      rw [noteFrom, ih hxs, place?_note]
      constructor
      · rintro (⟨i, hi, rfl⟩ | ⟨hy, hplace⟩)
        · exact Or.inl ⟨i + 1, hi, by omega⟩
        · split at hplace
          · rename_i hyx
            obtain rfl := Option.some.inj hplace
            exact Or.inl ⟨0, by rw [hyx]; rfl, rfl⟩
          · rename_i hyx
            exact Or.inr ⟨by simp [hyx, hy], hplace⟩
      · rintro (⟨i, hi, rfl⟩ | ⟨hy, hplace⟩)
        · cases i with
          | zero =>
              obtain rfl : x = y := Option.some.inj hi
              exact Or.inr ⟨hx, by rw [if_pos rfl]; rfl⟩
          | succ i => exact Or.inl ⟨i, hi, by omega⟩
        · rw [List.mem_cons, not_or] at hy
          obtain ⟨hyx, hy⟩ := hy
          exact Or.inr ⟨hy, by rw [if_neg hyx]; exact hplace⟩

end Index

end GrowingSet

end ShiftReduce
