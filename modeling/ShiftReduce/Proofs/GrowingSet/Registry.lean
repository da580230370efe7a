import ShiftReduce.GrowingSet.Registry
import ShiftReduce.Proofs.GrowingSet.Coherence

/-! # Registries — what any sequence of operations makes of named sets

    An operation changes one set of a registry, and leaves it coherent if all
    sets are.  So all sets are coherent after any sequence of operations, however
    many sets there are and whichever of them are the operands.  From there on
    the operations can be read off the lists of elements:

    * a value is contained if and only if it is listed;
    * two sets are the same if and only if they list the same elements, in
      whatever order;
    * a union lists the elements as before and the new ones behind them, in the
      order of the other set;
    * removing, subtracting and keeping take exactly the elements in question out
      of the list. -/

namespace ShiftReduce

namespace GrowingSet

namespace Registry

variable {α : Type} [DecidableEq α]

/-- An operation changes no set but its own. -/
theorem get_perform_of_ne (r : Registry α) (op : Operation α) {name : String}
    (h : name ≠ op.name) : (r.perform op).get name = r.get name := by
  cases op with
  | new own => exact get_put_of_ne h r _
  | copy own source => exact get_put_of_ne h r _
  | add own values => exact get_put_of_ne h r _
  | remove own value => exact get_put_of_ne h r _
  | union own other =>
      cases other with
      | none => rfl
      | some other => exact get_put_of_ne h r _
  | difference own other =>
      cases other with
      | none => rfl
      | some other =>
          rw [perform, Registry.difference]
          split <;> exact get_put_of_ne h r _
  | keep own test => exact get_put_of_ne h r _
  | restart own => exact get_put_of_ne h r _
  | advance own => exact get_put_of_ne h r _

/-! ## What an operation makes of its set -/

/-- After a union under a name, that name has the members of both sets. -/
theorem get_union (r : Registry α) (name other : String) :
    (r.perform (.union name (some other))).get name = (r.get name).union (r.get other) :=
  get_put_self r name _

/-- After a removal under a name, the member is out of that set. -/
theorem get_remove (r : Registry α) (name : String) (x : α) :
    (r.perform (.remove name x)).get name = (r.get name).remove x :=
  get_put_self r name _

/-- After a test under a name, that set has what passes. -/
theorem get_keep (r : Registry α) (name : String) (test : α → Bool) :
    (r.perform (.keep name test)).get name = (r.get name).keep test :=
  get_put_self r name _

/-- A set is subtracted from another one, or from itself in place. -/
theorem get_difference (r : Registry α) (name other : String) :
    (r.perform (.difference name (some other))).get name
      = if other = name then (r.get name).drain else (r.get name).difference (r.get other) := by
  rw [perform, Registry.difference]
  split <;> exact get_put_self r name _

/-- All sets of a registry are coherent. -/
def Coherent (r : Registry α) : Prop :=
  ∀ name, (r.get name).Coherent

/-- An operation leaves its own set coherent. -/
theorem Coherent.own {r : Registry α} (h : r.Coherent) (op : Operation α) :
    ((r.perform op).get op.name).Coherent := by
  -- one case for each operation, each with the lemma for the operation on a single set
  cases op with
  | new name =>
      rw [perform, Operation.name, get_put_self]
      exact coherent_empty
  | copy name source =>
      rw [perform, Operation.name, get_put_self]
      exact coherent_ofList _
  | add name values =>
      rw [perform, Operation.name, update, get_put_self]
      exact (h name).addAll values
  | remove name value =>
      rw [Operation.name, get_remove]
      exact (h name).remove value
  | union name other =>
      cases other with
      | none => exact h name
      | some other =>
          rw [Operation.name, get_union]
          exact (h name).union (r.get other)
  | difference name other =>
      cases other with
      | none => exact h name
      | some other =>
          rw [Operation.name, get_difference]
          split
          · exact (h name).drain
          · exact (h name).difference (r.get other)
  | keep name test =>
      rw [Operation.name, get_keep]
      exact (h name).keep test
  | restart name =>
      rw [perform, Operation.name, update, get_put_self]
      exact (h name).restart
  | advance name =>
      rw [perform, Operation.name, update, get_put_self]
      exact (h name).advance

/-- Every operation keeps all sets coherent. -/
theorem Coherent.perform {r : Registry α} (h : r.Coherent) (op : Operation α) :
    (r.perform op).Coherent := by
  intro name
  by_cases hname : name = op.name
  · rw [hname]
    exact h.own op
  · rw [get_perform_of_ne r op hname]
    exact h name

/-- All sets are coherent after any operations. -/
theorem coherent_ofOperations (operations : List (Operation α)) :
    (ofOperations operations).Coherent := by
  have hfrom : ∀ (operations : List (Operation α)) {r : Registry α}, r.Coherent →
      (operations.foldl Registry.perform r).Coherent := by
    intro operations
    induction operations with
    | nil => intro r h; exact h
    | cons op operations ih => intro r h; exact ih (h.perform op)
  exact hfrom operations fun _ => coherent_empty

/-- What the sets of a registry look like, and what operations make of them. -/
structure Faithful (r : Registry α) : Prop where
  /-- The list of a set has no repetitions, its index has the places of the list, and its
      cursor is inside the list or right behind it. -/
  coherent : ∀ name, (r.get name).Coherent
  /-- A value is contained if and only if it is listed. -/
  contains : ∀ name x, (r.get name).contains x = true ↔ x ∈ (r.get name).toList
  /-- Sets are the same if and only if they list the same elements in any order. -/
  same : ∀ name other, r.same name (some other) = true ↔
    ∀ x, x ∈ (r.get name).toList ↔ x ∈ (r.get other).toList
  /-- A union has the new elements behind the old ones, in the order of the other set. -/
  union : ∀ name other, ((r.perform (.union name (some other))).get name).toList
    = (r.get name).toList ++ (r.get other).toList.filter fun x => x ∉ (r.get name).toList
  /-- Removing takes out one value. -/
  remove : ∀ name x, ((r.perform (.remove name x)).get name).toList
    = (r.get name).toList.filter fun y => y ≠ x
  /-- Subtracting another set takes out its elements. -/
  difference : ∀ name other, other ≠ name →
    ((r.perform (.difference name (some other))).get name).toList
      = (r.get name).toList.filter fun x => x ∉ (r.get other).toList
  /-- Keeping takes out what fails the test. -/
  keep : ∀ name test, ((r.perform (.keep name test)).get name).toList
    = (r.get name).toList.filter test
  /-- An operation leaves all other sets as they are. -/
  frame : ∀ op name, name ≠ op.name → (r.perform op).get name = r.get name

/-- **Named sets are faithful.**  After any sequence of operations on any number
    of sets, every list agrees with its index, and every operation does to the
    lists what its name says. -/
theorem faithful_ofOperations (operations : List (Operation α)) :
    (ofOperations operations).Faithful where
  coherent := coherent_ofOperations operations
  contains := fun name x => (coherent_ofOperations operations name).contains_iff
  same := fun name other =>
    (coherent_ofOperations operations name).sameElements_iff (coherent_ofOperations operations other)
  union := by
    intro name other
    rw [get_union]
    exact (coherent_ofOperations operations name).union_items (coherent_ofOperations operations other)
  remove := by
    intro name x
    rw [get_remove]
    exact (coherent_ofOperations operations name).remove_items x
  difference := by
    intro name other hne
    rw [get_difference, if_neg hne]
    exact (coherent_ofOperations operations name).difference_items _
  keep := by
    intro name test
    rw [get_keep]
    exact (coherent_ofOperations operations name).keep_items test
  frame := fun op name => get_perform_of_ne _ op

/-- A removal before the cursor, while a set is visited, and a union. -/
example :
    let r : Registry Nat := ofOperations
      [.add "s" [5, 6, 7], .restart "s", .advance "s", .advance "s", .remove "s" 5,
        .add "t" [8, 6, 9], .union "s" (some "t")]
    (r.get "s").toList = [6, 7, 8, 9] ∧ (r.get "s").current? = some 6 ∧
      (r.get "s").index.place? 9 = some 3 := by
  decide

end Registry

end GrowingSet

end ShiftReduce
