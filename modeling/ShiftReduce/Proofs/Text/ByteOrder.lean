import Mathlib.Algebra.Group.Nat.Defs
import Mathlib.Tactic.SplitIfs
import ShiftReduce.Text.Bytes

/-! # Byte order — UTF-8 keeps the order of texts

    Texts are compared character by character, their codes byte by byte, and
    both comparisons agree.  The code of a character is a number in base 64 with
    a mark on its first digit: numbers with as many digits are compared digit by
    digit, and a code with more digits has a larger mark.  Therefore lists that
    are sorted as texts are sorted as byte strings too. -/

namespace ShiftReduce

namespace Bytes

/-- The first byte that is different decides. -/
theorem cons_lt {m n : Nat} (hm : m < 256) (hn : n < 256) {u v : Bytes}
    (h : m < n ∨ m = n ∧ u < v) : UInt8.ofNat m :: u < UInt8.ofNat n :: v := by
  rw [List.cons_lt_cons_iff, UInt8.lt_iff_toNat_lt, ← UInt8.toNat_inj,
    UInt8.toNat_ofNat_of_lt' hm, UInt8.toNat_ofNat_of_lt' hn]
  exact h

/-- A number as `k + 1` digits in base 64, with a mark on the first one. -/
def digits (mark : Nat) : Nat → Nat → Bytes
  | 0, n => [UInt8.ofNat (n + mark)]
  | k + 1, n => digits mark k (n / 64) ++ [UInt8.ofNat (n % 64 + 128)]

/-- Numbers with as many digits are compared digit by digit, whatever comes
    behind them. -/
theorem digits_lt {mark k : Nat} :
    ∀ {m n : Nat}, m < n → n / 64 ^ k + mark < 256 → ∀ u v : Bytes,
      digits mark k m ++ u < digits mark k n ++ v := by
  induction k with
  | zero =>
      intro m n hlt hfits u v
      rw [Nat.pow_zero, Nat.div_one] at hfits
      exact cons_lt (by omega) hfits (Or.inl (by omega))
  | succ k ih =>
      intro m n hlt hfits u v
      rw [digits, digits, List.append_assoc, List.append_assoc]
      rcases Nat.lt_or_ge (m / 64) (n / 64) with hfront | hfront
      · refine ih hfront ?_ _ _
        rw [Nat.div_div_eq_div_mul, ← Nat.pow_succ']
        exact hfits
      · have hsame : m / 64 = n / 64 := by omega
        rw [hsame]
        exact List.append_left_lt (cons_lt (by omega) (by omega) (Or.inl (by omega)))

/-- A larger mark decides, if the first digits leave it larger. -/
theorem digits_lt_of_mark {mark mark' k k' m n : Nat}
    (h : m / 64 ^ k + mark < n / 64 ^ k' + mark') (hfits : n / 64 ^ k' + mark' < 256) (u v : Bytes) :
    digits mark k m ++ u < digits mark' k' n ++ v := by
  have hfirst : ∀ mark k n : Nat, ∃ w, digits mark k n = UInt8.ofNat (n / 64 ^ k + mark) :: w := by
    intro mark k
    induction k with
    | zero =>
        intro n
        exact ⟨[], by rw [digits, Nat.pow_zero, Nat.div_one]⟩
    | succ k ih =>
        intro n
        obtain ⟨w, hw⟩ := ih (n / 64)
        rw [Nat.div_div_eq_div_mul, ← Nat.pow_succ'] at hw
        exact ⟨w ++ [UInt8.ofNat (n % 64 + 128)], by rw [digits, hw, List.cons_append]⟩
  obtain ⟨w, hw⟩ := hfirst mark k m
  obtain ⟨w', hw'⟩ := hfirst mark' k' n
  rw [hw, hw']
  exact cons_lt (Nat.lt_trans h hfits) hfits (Or.inl h)

theorem codePoint_lt (c : Char) : c.val.toNat < 1114112 := by
  rcases c.valid with hlow | hhigh
  · exact Nat.lt_trans hlow (by decide)
  · exact hhigh.2

/-- A code has one to four digits, and marks that grow with their number. -/
theorem utf8EncodeChar_eq (c : Char) :
    String.utf8EncodeChar c =
      if c.val.toNat ≤ 127 then digits 0 0 c.val.toNat
      else if c.val.toNat ≤ 2047 then digits 192 1 c.val.toNat
      else if c.val.toNat ≤ 65535 then digits 224 2 c.val.toNat
      else digits 240 3 c.val.toNat := by
  have hvalid := codePoint_lt c
  rw [String.utf8EncodeChar]
  generalize c.val.toNat = n at hvalid ⊢
  have h₂ : n / 64 / 64 = n / 4096 := Nat.div_div_eq_div_mul n 64 64
  have h₃ : n / 4096 / 64 = n / 262144 := Nat.div_div_eq_div_mul n 4096 64
  split_ifs
  · rfl
  · rw [Nat.mod_eq_of_lt (by omega)]
    rfl
  · rw [Nat.mod_eq_of_lt (by omega), ← h₂]
    rfl
  · rw [Nat.mod_eq_of_lt (by omega), ← h₃, ← h₂]
    rfl

/-- The code of a larger character is larger, whatever comes behind it. -/
theorem utf8EncodeChar_lt {c d : Char} (h : c < d) (u v : Bytes) :
    String.utf8EncodeChar c ++ u < String.utf8EncodeChar d ++ v := by
  have hlt : c.val.toNat < d.val.toNat := h
  have hvalid := codePoint_lt d
  rw [utf8EncodeChar_eq, utf8EncodeChar_eq]
  generalize c.val.toNat = m at hlt ⊢
  generalize d.val.toNat = n at hlt hvalid ⊢
  -- either as many digits, or more of them and a larger mark
  split_ifs
  all_goals first
    | omega
    | exact digits_lt hlt (by omega) u v
    | exact digits_lt_of_mark (by omega) (by omega) u v

/-- The order of texts is the order of their bytes. -/
theorem ofText_lt {s t : String} (h : s < t) : ofText s < ofText t := by
  have hlex : ∀ {l l' : List Char}, List.Lex (· < ·) l l' →
      l.flatMap String.utf8EncodeChar < l'.flatMap String.utf8EncodeChar := by
    intro l l' hlex
    induction hlex with
    | @nil c l =>
        obtain ⟨b, w, hcode⟩ := List.exists_cons_of_ne_nil (String.utf8EncodeChar_ne_nil (c := c))
        rw [List.flatMap_nil, List.flatMap_cons, hcode]
        exact List.nil_lt_cons _ _
    | rel hlt => exact utf8EncodeChar_lt hlt _ _
    | cons _ ih => exact List.append_left_lt ih
  exact hlex h

end Bytes

end ShiftReduce
