/-! # Bisection — the border of a test, found by halving

    A test on numbers that fails up to some number and holds from there on has a
    border, and looking at the middle of what is left finds it.  Of any other test
    some border is found: right before it the test fails, and at it the test holds. -/

namespace ShiftReduce

/-- The border of a test from `low` to `high`, with fuel for as many halvings. -/
def bisectFrom (test : Nat → Bool) : Nat → Nat → Nat → Nat
  | 0, low, _ => low
  | fuel + 1, low, high =>
    if low < high then
      let middle := (low + high) / 2
      if test middle then bisectFrom test fuel low middle
      else bisectFrom test fuel (middle + 1) high
    else low

/-- The border of a test from 0 to `n`.  A halving takes off one number at least,
    so there are no more halvings than numbers. -/
def bisect (n : Nat) (test : Nat → Bool) : Nat :=
  bisectFrom test n 0 n

/-- A number from `low` to `high` where a test changes from failing to holding;
    beyond the two ends nothing is asked of the test. -/
structure IsBorder (test : Nat → Bool) (low high border : Nat) : Prop where
  low_le : low ≤ border
  le_high : border ≤ high
  fails : low < border → test (border - 1) = false
  holds : border < high → test border = true

/-- Halving comes to a border between its two edges. The test need not be monotone for
    that: one step only looks at the middle. -/
theorem isBorder_bisectFrom (test : Nat → Bool) : ∀ (fuel : Nat) {low high : Nat},
    low ≤ high → high - low ≤ fuel → IsBorder test low high (bisectFrom test fuel low high) := by
  intro fuel
  induction fuel with
  | zero =>
      intro low high hle hfuel
      exact ⟨Nat.le_refl _, hle, fun h => absurd h (Nat.lt_irrefl _), fun h => by
        rw [bisectFrom] at h
        omega⟩
  | succ fuel ih =>
      intro low high hle hfuel
      rw [bisectFrom]
      by_cases hlt : low < high
      · rw [if_pos hlt]
        dsimp only
        have hlow : low ≤ (low + high) / 2 := by omega
        have hhigh : (low + high) / 2 < high := by omega
        generalize (low + high) / 2 = middle at hlow hhigh
        by_cases htest : test middle = true
        · rw [if_pos htest]
          obtain ⟨hlow', hhigh', hfails, hholds⟩ := ih hlow (by omega)
          refine ⟨hlow', by omega, hfails, fun _ => ?_⟩
          -- what is found is below the middle, or it is the middle itself
          rcases Nat.lt_or_eq_of_le hhigh' with h | h
          · exact hholds h
          · rw [h]
            exact htest
        · rw [if_neg htest]
          have hnext : middle + 1 ≤ high := hhigh
          obtain ⟨hlow', hhigh', hfails, hholds⟩ := ih hnext (by omega)
          refine ⟨by omega, hhigh', fun _ => ?_, hholds⟩
          rcases Nat.lt_or_eq_of_le hlow' with h | h
          · exact hfails h
          · rw [← h]
            exact Bool.eq_false_iff.mpr htest
      · rw [if_neg hlt]
        exact ⟨Nat.le_refl _, hle, fun h => absurd h (Nat.lt_irrefl _), fun h => absurd h hlt⟩

/-- Bisection finds a border. -/
theorem isBorder_bisect (n : Nat) (test : Nat → Bool) : IsBorder test 0 n (bisect n test) :=
  isBorder_bisectFrom test n (Nat.zero_le n) (Nat.le_refl _)

end ShiftReduce
