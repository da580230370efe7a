import Mathlib.Data.Set.Function
import ShiftReduce.Proofs.Table.Writing

/-! # Encoding — the integers of cells and the actions that fit into them

    Every integer of a cell stands for an action from which the same integer is
    made again (`encode_decode`).  The least integer, which marks an empty cell,
    stands for a rule below zero, since it is its own negative; every other one
    stands for an action that fits (`fits_decode_iff`).  So the actions that fit
    and the integers of filled cells are in one-to-one correspondence, and nothing
    can be added to those actions: any other is read back as something else or as
    no action at all (`fits_iff`).

    What can be read of a table that was made by writing follows: an action that
    fits is read where it was written, and all other entries are as before
    (`Table.actions_exact`). -/

namespace ShiftReduce

namespace Action

/-! ## From integers to actions and back -/

/-- No integer is lost, the one of an empty cell included. -/
theorem encode_decode (v : Int32) : (decode v).encode = v := by
  rw [decode]
  split
  · exact Int32.ofInt_toInt v
  · split
    · rename_i hv
      exact hv.symm
    · show Int32.ofInt (-((-v).toInt - 2 + 2)) = v
      rw [Int.sub_add_cancel, Int32.ofInt_neg, Int32.ofInt_toInt, Int32.neg_neg]

/-- Filled cells hold actions that fit. -/
theorem fits_decode {v : Int32} (h : v ≠ SparseMatrix.defaultNull) : (decode v).Fits := by
  have hlow := SparseMatrix.ne_defaultNull_iff.mp h
  have hhigh := v.toInt_lt
  rw [decode]
  split
  · rename_i hnonneg
    exact ⟨Int32.le_iff_toInt_le.mp hnonneg, hhigh⟩
  · rename_i hneg
    rw [Int32.le_iff_toInt_le] at hneg
    change ¬ (0 : Int) ≤ v.toInt at hneg
    split
    · trivial
    · rename_i hne
      have hminus : v.toInt ≠ -1 := fun heq => hne (Int32.toInt_inj.mp heq)
      rw [Fits, SparseMatrix.toInt_neg h]
      omega

/-- An empty cell would be read as a rule below zero. -/
theorem not_fits_decode_null : ¬ (decode SparseMatrix.defaultNull).Fits := by
  have hread : decode SparseMatrix.defaultNull = .reduce (-2147483650) := by decide
  rw [hread]
  exact fun h => absurd h.1 (by decide)

theorem fits_decode_iff {v : Int32} : (decode v).Fits ↔ v ≠ SparseMatrix.defaultNull := by
  constructor
  · rintro h rfl
    exact not_fits_decode_null h
  · exact fits_decode

/-! ## The actions that fit -/

/-- The actions that fit are all that a cell can tell apart. -/
theorem fits_iff {a : Action} :
    a.Fits ↔ decode a.encode = a ∧ a.encode ≠ SparseMatrix.defaultNull := by
  constructor
  · intro h
    exact ⟨decode_encode h, encode_ne_null h⟩
  · rintro ⟨hread, hne⟩
    rw [← hread]
    exact fits_decode hne

/-- The first rule that does not fit looks like an empty cell. -/
example :
    decode (Action.reduce 2147483645).encode = .reduce 2147483645 ∧
      (Action.reduce 2147483646).encode = SparseMatrix.defaultNull := by
  decide

/-- Actions that fit and integers of filled cells are in one-to-one correspondence. -/
theorem bijOn_encode :
    Set.BijOn encode {a | a.Fits} {v | v ≠ SparseMatrix.defaultNull} := by
  have hinverse : Set.InvOn decode encode {a | a.Fits} {v | v ≠ SparseMatrix.defaultNull} :=
    ⟨fun _ h => decode_encode h, fun v _ => encode_decode v⟩
  exact hinverse.bijOn (fun _ h => encode_ne_null h) (fun _ h => fits_decode h)

end Action

namespace Table

variable {t : Table}

/-! ## Writing into a cell of a table -/

/-- Into the cells of a table an action is written without complaint. -/
theorem Shaped.set_eq (h : t.Shaped) {k j : Nat} (hk : k < t.stateCount) {x : Symbol}
    (hj : column? t.terminals x = some j) (a : Action) :
    t.actions.set k j a.encode = .ok (t.setAction k x a).actions := by
  have hinside := inside_of_column h.action_rows h.action_columns hk hj
  rw [SparseMatrix.set, if_pos hinside, Table.setAction, hj]

/-- **Cells hold actions exactly.**  The actions that fit are those that are read
    back from their integer without looking like an empty cell; every integer is
    made again from what it stands for, which fits unless the cell is empty.  So
    whatever was written before, writing an action that fits into a cell of a
    table is carried out, the action is read there, and every other entry is as it
    was. -/
theorem actions_exact :
    (∀ a : Action,
        a.Fits ↔ Action.decode a.encode = a ∧ a.encode ≠ SparseMatrix.defaultNull) ∧
      (∀ v : Int32, (Action.decode v).encode = v ∧
        ((Action.decode v).Fits ↔ v ≠ SparseMatrix.defaultNull)) ∧
      Set.BijOn Action.encode {a | a.Fits} {v | v ≠ SparseMatrix.defaultNull} ∧
      ∀ (n : Nat) (terminals nonterminals : List Symbol) (t : Table),
        Written (fun _ _ _ => True) (fun _ _ _ => True) (blank n terminals nonterminals) t →
        ∀ (k : Nat) (x : Symbol) (a : Action), k < n → x ∈ terminals → a.Fits →
          (∃ j, column? terminals x = some j ∧
            t.actions.set k j a.encode = .ok (t.setAction k x a).actions) ∧
          ∀ (l : Int) (y : Symbol), (t.setAction k x a).action? l y
            = if l = k ∧ y = x then some a else t.action? l y := by
  refine ⟨fun a => Action.fits_iff, fun v => ⟨Action.encode_decode v, Action.fits_decode_iff⟩,
    Action.bijOn_encode, ?_⟩
  intro n terminals nonterminals t h k x a hk hx ha
  have hshaped := h.shaped (shaped_blank n terminals nonterminals)
  have hcount : t.stateCount = n := h.stateCount_eq
  have hterminals : t.terminals = terminals := h.terminals_eq
  rw [← hcount] at hk
  rw [← hterminals] at hx ⊢
  obtain ⟨j, hj⟩ := exists_column hx
  exact ⟨⟨j, hj, hshaped.set_eq hk hj a⟩, action?_setAction hshaped hk hx ha⟩

/-- The greatest rule is written over the greatest state, next to acceptance. -/
theorem actions_exact_greatest :
    let t := ((blank 2 ["a", "$"] ["S"]).setAction 1 "$" .accept).setAction 1 "a"
      (.shift 2147483647)
    Written (fun _ _ _ => True) (fun _ _ _ => True) (blank 2 ["a", "$"] ["S"]) t ∧
      (Action.reduce 2147483645).Fits ∧
      (t.setAction 1 "a" (.reduce 2147483645)).action? 1 "a" = some (.reduce 2147483645) ∧
      (t.setAction 1 "a" (.reduce 2147483645)).action? 1 "$" = t.action? 1 "$" := by
  intro t
  have ht : Written (fun _ _ _ => True) (fun _ _ _ => True) (blank 2 ["a", "$"] ["S"]) t :=
    (Written.first.setAction trivial).setAction trivial
  have hfits : (Action.reduce 2147483645).Fits := ⟨by decide, by decide⟩
  have hread := (actions_exact.2.2.2 2 ["a", "$"] ["S"] t ht 1 "a" (.reduce 2147483645)
    (by decide) (by decide) hfits).2
  refine ⟨ht, hfits, ?_, ?_⟩
  · rw [hread, if_pos ⟨rfl, rfl⟩]
  · rw [hread, if_neg (by decide)]

end Table

end ShiftReduce
