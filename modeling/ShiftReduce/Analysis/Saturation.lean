/-! # Saturation — repeating a step until nothing changes -/

namespace ShiftReduce

/-- Repeats a step until it changes nothing, at most as often as the fuel
    says. -/
def saturate {α : Type} [DecidableEq α] (step : α → α) : Nat → α → α
  | 0, x => x
  | fuel + 1, x =>
    let y := step x
    if y = x then x else saturate step fuel y

/-- What every step keeps, saturation keeps. -/
theorem saturate_induct {α : Type} [DecidableEq α] {step : α → α} {P : α → Prop}
    (hstep : ∀ x, P x → P (step x)) : ∀ (fuel : Nat) (x : α), P x → P (saturate step fuel x)
  | 0, _, hx => hx
  | fuel + 1, x, hx => by
    unfold saturate
    by_cases h : step x = x
    · simpa [h] using hx
    · simpa [h] using saturate_induct hstep fuel (step x) (hstep x hx)

/-- If a measure below a bound grows with every change, enough fuel reaches a
    point that the step keeps. -/
theorem saturate_stable {α : Type} [DecidableEq α] {step : α → α} {P : α → Prop}
    {size : α → Nat} {bound : Nat} (hstep : ∀ x, P x → P (step x))
    (hgrow : ∀ x, P x → step x ≠ x → size x < size (step x))
    (hbound : ∀ x, P x → size x ≤ bound) :
    ∀ (fuel : Nat) (x : α), P x → bound < fuel + size x →
      step (saturate step fuel x) = saturate step fuel x
  | 0, x, hx, hf => absurd (hbound x hx) (by omega)
  | fuel + 1, x, hx, hf => by
    unfold saturate
    by_cases h : step x = x
    · simp [h]
    · have hsize := hgrow x hx h
      simpa [h] using saturate_stable hstep hgrow hbound fuel (step x) (hstep x hx) (by omega)

/-- Fuel does nothing at a point that the step keeps. -/
theorem saturate_of_kept {α : Type} [DecidableEq α] {step : α → α} {x : α} (h : step x = x) :
    ∀ fuel : Nat, saturate step fuel x = x
  | 0 => rfl
  | fuel + 1 => by
    unfold saturate
    rw [if_pos h]

/-- A step can be taken before saturation. -/
theorem saturate_succ {α : Type} [DecidableEq α] (step : α → α) (fuel : Nat) (x : α) :
    saturate step (fuel + 1) x = saturate step fuel (step x) := by
  rw [saturate]
  by_cases h : step x = x
  · rw [if_pos h, h, saturate_of_kept h]
  · rw [if_neg h]

/-- More fuel than enough changes nothing. -/
theorem saturate_of_le {α : Type} [DecidableEq α] {step : α → α} :
    ∀ {enough fuel : Nat} {x : α}, step (saturate step enough x) = saturate step enough x →
      enough ≤ fuel → saturate step fuel x = saturate step enough x
  | 0, fuel, _, hkept, _ => saturate_of_kept hkept fuel
  | enough + 1, 0, _, _, hle => absurd hle (by omega)
  | enough + 1, fuel + 1, x, hkept, hle => by
    rw [saturate_succ] at hkept ⊢
    rw [saturate_succ]
    exact saturate_of_le hkept (by omega)

/-- Steps that keep a relation keep it when both are repeated equally often. -/
theorem saturate_related {α β : Type} [DecidableEq α] [DecidableEq β] {step : α → α}
    {step' : β → β} {R : α → β → Prop} (hstep : ∀ x y, R x y → R (step x) (step' y)) :
    ∀ (fuel : Nat) (x : α) (y : β), R x y → R (saturate step fuel x) (saturate step' fuel y)
  | 0, _, _, h => h
  | fuel + 1, x, y, h => by
    rw [saturate_succ, saturate_succ]
    exact saturate_related hstep fuel (step x) (step' y) (hstep x y h)

/-- The loop without a bound: a step is repeated until it changes nothing. -/
inductive Settles {α : Type} (step : α → α) : α → α → Prop where
  | done {x : α} (h : step x = x) : Settles step x x
  | again {x y : α} (h : step x ≠ x) (hrest : Settles step (step x) y) : Settles step x y

/-- If saturation comes to a point that the step keeps, then the loop without a
    bound ends there, too. -/
theorem settles_saturate {α : Type} [DecidableEq α] {step : α → α} :
    ∀ (fuel : Nat) (x : α), step (saturate step fuel x) = saturate step fuel x →
      Settles step x (saturate step fuel x)
  | 0, _, hkept => .done hkept
  | fuel + 1, x, hkept => by
    unfold saturate at hkept ⊢
    dsimp only at hkept ⊢
    by_cases h : step x = x
    · rw [if_pos h]
      exact .done h
    · rw [if_neg h] at hkept ⊢
      exact .again h (settles_saturate fuel (step x) hkept)

end ShiftReduce
