/-! # Overwriting — values put over the members of a list

    Values are put over the members of a list from some place on.  The list keeps
    its length: values that do not fit are dropped, and members behind the values
    stay.  The values may be members of the same list, as they were before. -/

namespace ShiftReduce

variable {α : Type}

/-- Puts values over the members from a place on. -/
def overwrite (xs : List α) (place : Nat) (values : List α) : List α :=
  xs.take place ++ values.take (xs.length - place) ++ xs.drop (place + values.length)

/-- Values that are written behind a front replace as much of the rest as they are long,
    and end where the rest ends. -/
theorem overwrite_append (front rest values : List α) :
    overwrite (front ++ rest) front.length values
      = front ++ values.take rest.length ++ rest.drop values.length := by
  rw [overwrite, List.take_left, List.length_append, Nat.add_sub_cancel_left,
    List.drop_length_add_append]

end ShiftReduce
