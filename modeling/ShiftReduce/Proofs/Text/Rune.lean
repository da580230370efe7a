import Mathlib.Tactic.SplitIfs
import ShiftReduce.Proofs.Text.ByteOrder

/-! # Runes — the front of a byte string is a character or a stray byte

    `frontRune?` tells well-formed UTF-8 by ranges of bytes.  The ranges are
    those of `Coded`, and the sequences that `Coded` admits are the codes of
    characters (`coded_utf8EncodeChar`) and nothing else (`Coded.exists_char`).
    So the rune at the front of a byte string is the code of a character
    wherever the bytes begin with such a code, and one byte elsewhere
    (`isFrontRune_take`), whatever the bytes are. -/

namespace ShiftReduce

namespace Bytes

/-! ## Well-formed sequences -/

theorem isTail_iff {b : UInt8} : isTail b = true ↔ 128 ≤ b.toNat ∧ b.toNat ≤ 191 := by
  rw [isTail, Bool.and_eq_true, decide_eq_true_eq, decide_eq_true_eq, UInt8.le_iff_toNat_le,
    UInt8.le_iff_toNat_le]
  rfl

/-- The well-formed sequences of one to four bytes and their code points. -/
inductive Coded : Bytes → Nat → Prop where
  | one {a : UInt8} (ha : a.toNat < 128) : Coded [a] a.toNat
  | two {a b : UInt8} (ha : 194 ≤ a.toNat ∧ a.toNat ≤ 223) (hb : isTail b = true) :
      Coded [a, b] ((a.toNat - 192) * 64 + tailBits b)
  | three {a b c : UInt8} (ha : 224 ≤ a.toNat ∧ a.toNat ≤ 239) (hb : isTail b = true)
      (hc : isTail c = true) (hlow : a.toNat = 224 → 160 ≤ b.toNat)
      (hhigh : a.toNat = 237 → b.toNat ≤ 159) :
      Coded [a, b, c] ((a.toNat - 224) * 4096 + tailBits b * 64 + tailBits c)
  | four {a b c d : UInt8} (ha : 240 ≤ a.toNat ∧ a.toNat ≤ 244) (hb : isTail b = true)
      (hc : isTail c = true) (hd : isTail d = true) (hlow : a.toNat = 240 → 144 ≤ b.toNat)
      (hhigh : a.toNat = 244 → b.toNat ≤ 143) :
      Coded [a, b, c, d]
        ((a.toNat - 240) * 262144 + tailBits b * 4096 + tailBits c * 64 + tailBits d)

theorem Coded.length_pos {w : Bytes} {code : Nat} (h : Coded w code) : 0 < w.length := by
  cases h <;> simp

/-- A well-formed sequence is found at the front, whatever comes behind it. -/
theorem Coded.frontRune? {w : Bytes} {code : Nat} (h : Coded w code) (rest : Bytes) :
    frontRune? (w ++ rest) = some (code, w.length) := by
  cases h with
  | one ha => simp [frontRune?.eq_def, UInt8.lt_iff_toNat_lt, ha]
  | @two a b ha hb =>
      have hone : ¬ a.toNat < 128 := by omega
      simp [frontRune?.eq_def, UInt8.lt_iff_toNat_lt, UInt8.le_iff_toNat_le, hone, ha, hb]
  | @three a b c ha hb hc hlow hhigh =>
      have hone : ¬ a.toNat < 128 := by omega
      have htwo : ¬ a.toNat ≤ 223 := by omega
      have hfloor : ¬ a.toNat = 224 ∨ 160 ≤ b.toNat := by omega
      simpa [frontRune?.eq_def, UInt8.lt_iff_toNat_lt, UInt8.le_iff_toNat_le, hone, htwo, ha, hb,
        hc, ← UInt8.toNat_inj] using And.intro hfloor hhigh
  | @four a b c d ha hb hc hd hlow hhigh =>
      have hone : ¬ a.toNat < 128 := by omega
      have htwo : ¬ a.toNat ≤ 223 := by omega
      have hthree : ¬ a.toNat ≤ 239 := by omega
      have hfloor : ¬ a.toNat = 240 ∨ 144 ≤ b.toNat := by omega
      simpa [frontRune?.eq_def, UInt8.lt_iff_toNat_lt, UInt8.le_iff_toNat_le, hone, htwo, hthree,
        ha, hb, hc, hd, ← UInt8.toNat_inj] using And.intro hfloor hhigh

/-- What is found at the front is well-formed. -/
theorem coded_of_frontRune? {bs : Bytes} {code n : Nat} (h : frontRune? bs = some (code, n)) :
    ∃ w rest, bs = w ++ rest ∧ w.length = n ∧ Coded w code := by
  revert h
  -- case by case of the decoder: one, two, three or four bytes, or none of these
  fun_cases frontRune? bs with
  | case1 => exact nofun
  | case2 a bs hone =>
      intro h
      obtain ⟨rfl, rfl⟩ := Prod.mk.inj (Option.some.inj h)
      exact ⟨[a], bs, rfl, rfl, .one (UInt8.lt_iff_toNat_lt.mp hone)⟩
  | case3 a hone htwo b bs hb =>
      intro h
      obtain ⟨rfl, rfl⟩ := Prod.mk.inj (Option.some.inj h)
      simp only [Bool.and_eq_true, decide_eq_true_eq, UInt8.le_iff_toNat_le] at htwo
      exact ⟨[a, b], bs, rfl, rfl, .two htwo hb⟩
  | case4 | case5 => exact nofun
  | case6 a hone htwo hthree b c bs htail =>
      intro h
      obtain ⟨rfl, rfl⟩ := Prod.mk.inj (Option.some.inj h)
      simp only [Bool.and_eq_true, Bool.or_eq_true, bne_iff_ne, ne_eq, decide_eq_true_eq,
        UInt8.le_iff_toNat_le, ← UInt8.toNat_inj] at hthree htail
      obtain ⟨⟨⟨hb, hc⟩, hlow⟩, hhigh⟩ := htail
      exact ⟨[a, b, c], bs, rfl, rfl,
        .three hthree hb hc (fun h => hlow.resolve_left (not_not_intro h))
          (fun h => hhigh.resolve_left (not_not_intro h))⟩
  | case7 | case8 => exact nofun
  | case9 a hone htwo hthree hfour b c d bs htail =>
      intro h
      obtain ⟨rfl, rfl⟩ := Prod.mk.inj (Option.some.inj h)
      simp only [Bool.and_eq_true, Bool.or_eq_true, bne_iff_ne, ne_eq, decide_eq_true_eq,
        UInt8.le_iff_toNat_le, ← UInt8.toNat_inj] at hfour htail
      obtain ⟨⟨⟨⟨hb, hc⟩, hd⟩, hlow⟩, hhigh⟩ := htail
      exact ⟨[a, b, c, d], bs, rfl, rfl,
        .four hfour hb hc hd (fun h => hlow.resolve_left (not_not_intro h))
          (fun h => hhigh.resolve_left (not_not_intro h))⟩
  | case10 | case11 | case12 => exact nofun

/-! ## Codes of characters -/

theorem isTail_digit (n : Nat) : isTail (UInt8.ofNat (n % 64 + 128)) = true := by
  have hdigit : (UInt8.ofNat (n % 64 + 128)).toNat = n % 64 + 128 :=
    UInt8.toNat_ofNat_of_lt' (show n % 64 + 128 < 256 by omega)
  rw [isTail_iff]
  omega

theorem tailBits_digit (n : Nat) : tailBits (UInt8.ofNat (n % 64 + 128)) = n % 64 := by
  have hdigit : (UInt8.ofNat (n % 64 + 128)).toNat = n % 64 + 128 :=
    UInt8.toNat_ofNat_of_lt' (show n % 64 + 128 < 256 by omega)
  show (UInt8.ofNat (n % 64 + 128)).toNat - 128 = n % 64
  omega

/-- The code of a character is well-formed. -/
theorem coded_utf8EncodeChar (c : Char) : Coded (String.utf8EncodeChar c) c.toNat := by
  have hvalid : c.val.toNat < 55296 ∨ 57343 < c.val.toNat ∧ c.val.toNat < 1114112 := c.valid
  rw [utf8EncodeChar_eq]
  show Coded _ c.val.toNat
  generalize c.val.toNat = n at hvalid ⊢
  have hbyte : ∀ {m : Nat}, m < 256 → (UInt8.ofNat m).toNat = m := UInt8.toNat_ofNat_of_lt'
  -- one to four digits to the base of 64, each with room in its byte
  split_ifs with hone htwo hthree
  · have ha := hbyte (m := n) (by omega)
    have hcoded := Coded.one (a := UInt8.ofNat n) (by omega)
    rw [ha] at hcoded
    exact hcoded
  · have ha := hbyte (m := n / 64 + 192) (by omega)
    have hcoded := Coded.two (a := UInt8.ofNat (n / 64 + 192)) (by omega) (isTail_digit n)
    rw [ha, tailBits_digit, show (n / 64 + 192 - 192) * 64 + n % 64 = n by omega] at hcoded
    exact hcoded
  · have ha := hbyte (m := n / 64 / 64 + 224) (by omega)
    have hb := hbyte (m := n / 64 % 64 + 128) (by omega)
    have hcoded := Coded.three (a := UInt8.ofNat (n / 64 / 64 + 224)) (by omega)
      (isTail_digit (n / 64)) (isTail_digit n) (by omega) (by omega)
    rw [ha, tailBits_digit, tailBits_digit,
      show (n / 64 / 64 + 224 - 224) * 4096 + n / 64 % 64 * 64 + n % 64 = n by omega] at hcoded
    exact hcoded
  · have ha := hbyte (m := n / 64 / 64 / 64 + 240) (by omega)
    have hb := hbyte (m := n / 64 / 64 % 64 + 128) (by omega)
    have hcoded := Coded.four (a := UInt8.ofNat (n / 64 / 64 / 64 + 240)) (by omega)
      (isTail_digit (n / 64 / 64)) (isTail_digit (n / 64)) (isTail_digit n) (by omega) (by omega)
    rw [ha, tailBits_digit, tailBits_digit, tailBits_digit,
      show (n / 64 / 64 / 64 + 240 - 240) * 262144 + n / 64 / 64 % 64 * 4096 + n / 64 % 64 * 64
        + n % 64 = n by omega] at hcoded
    exact hcoded

theorem ofNat_eq_of_toNat {b : UInt8} {n : Nat} (h : n = b.toNat) : UInt8.ofNat n = b := by
  rw [h]
  exact UInt8.ofNat_toNat

/-- A well-formed sequence is the code of a character: its bytes are the digits of
    the code point, which is no surrogate and in range. -/
theorem Coded.exists_char {w : Bytes} {code : Nat} (h : Coded w code) :
    ∃ c : Char, String.utf8EncodeChar c = w := by
  -- the code point fits, and its encoding has the bytes that it was read from
  have hdigits : (code < 55296 ∨ 57343 < code ∧ code < 1114112) ∧ w =
      if code ≤ 127 then digits 0 0 code
      else if code ≤ 2047 then digits 192 1 code
      else if code ≤ 65535 then digits 224 2 code
      else digits 240 3 code := by
    cases h with
    | @one a ha =>
        refine ⟨by omega, ?_⟩
        rw [if_pos (by omega)]
        show [a] = [UInt8.ofNat (a.toNat + 0)]
        rw [ofNat_eq_of_toNat (b := a) (by omega)]
    | @two a b ha hb =>
        have hbits : tailBits b = b.toNat - 128 := rfl
        rw [isTail_iff] at hb
        generalize hcode : (a.toNat - 192) * 64 + tailBits b = n
        refine ⟨by omega, ?_⟩
        rw [if_neg (by omega), if_pos (by omega)]
        show [a, b] = [UInt8.ofNat (n / 64 + 192), UInt8.ofNat (n % 64 + 128)]
        rw [ofNat_eq_of_toNat (b := a) (by omega), ofNat_eq_of_toNat (b := b) (by omega)]
    | @three a b c ha hb hc hlow hhigh =>
        have hbits : tailBits b = b.toNat - 128 := rfl
        have hbits' : tailBits c = c.toNat - 128 := rfl
        rw [isTail_iff] at hb hc
        generalize hcode : (a.toNat - 224) * 4096 + tailBits b * 64 + tailBits c = n
        refine ⟨by omega, ?_⟩
        rw [if_neg (by omega), if_neg (by omega), if_pos (by omega)]
        show [a, b, c] = [UInt8.ofNat (n / 64 / 64 + 224), UInt8.ofNat (n / 64 % 64 + 128),
          UInt8.ofNat (n % 64 + 128)]
        rw [ofNat_eq_of_toNat (b := a) (by omega), ofNat_eq_of_toNat (b := b) (by omega),
          ofNat_eq_of_toNat (b := c) (by omega)]
    | @four a b c d ha hb hc hd hlow hhigh =>
        have hbits : tailBits b = b.toNat - 128 := rfl
        have hbits' : tailBits c = c.toNat - 128 := rfl
        have hbits'' : tailBits d = d.toNat - 128 := rfl
        rw [isTail_iff] at hb hc hd
        generalize hcode : (a.toNat - 240) * 262144 + tailBits b * 4096 + tailBits c * 64
          + tailBits d = n
        refine ⟨by omega, ?_⟩
        rw [if_neg (by omega), if_neg (by omega), if_neg (by omega)]
        show [a, b, c, d] = [UInt8.ofNat (n / 64 / 64 / 64 + 240),
          UInt8.ofNat (n / 64 / 64 % 64 + 128), UInt8.ofNat (n / 64 % 64 + 128),
          UInt8.ofNat (n % 64 + 128)]
        rw [ofNat_eq_of_toNat (b := a) (by omega), ofNat_eq_of_toNat (b := b) (by omega),
          ofNat_eq_of_toNat (b := c) (by omega), ofNat_eq_of_toNat (b := d) (by omega)]
  exact ⟨Char.ofNatAux code hdigits.1, (utf8EncodeChar_eq _).trans hdigits.2.symm⟩

/-! ## The rune at the front -/

/-- The bytes `rune` are the first rune of a byte string: the code of a character,
    or a single byte where no such code begins. -/
def IsFrontRune (bs rune : Bytes) : Prop :=
  rune <+: bs ∧ ((∃ c : Char, rune = String.utf8EncodeChar c) ∨
    rune.length = 1 ∧ ∀ c : Char, ¬ String.utf8EncodeChar c <+: bs)

/-- A rune is read from its own bytes. -/
theorem frontRune?_take {bs : Bytes} {code n : Nat} (h : frontRune? bs = some (code, n)) :
    0 < n ∧ n ≤ bs.length ∧ ∀ rest, frontRune? (bs.take n ++ rest) = some (code, n) := by
  obtain ⟨w, rest, rfl, rfl, hcoded⟩ := coded_of_frontRune? h
  refine ⟨hcoded.length_pos, by simp, ?_⟩
  intro rest'
  rw [List.take_left]
  exact hcoded.frontRune? rest'

/-- The rune at the front has a byte, and no more bytes than there are. -/
theorem frontLength_bounds (b : UInt8) (bs : Bytes) :
    0 < frontLength (b :: bs) ∧ frontLength (b :: bs) ≤ (b :: bs).length := by
  rw [frontLength]
  cases hrune : frontRune? (b :: bs) with
  | none => exact ⟨Nat.one_pos, by simp⟩
  | some rune =>
      obtain ⟨hpos, hle, -⟩ := frontRune?_take hrune
      exact ⟨hpos, hle⟩

/-- The rune at the front is as long as `frontLength` says. -/
theorem isFrontRune_take (b : UInt8) (bs : Bytes) :
    IsFrontRune (b :: bs) ((b :: bs).take (frontLength (b :: bs))) := by
  refine ⟨List.take_prefix _ _, ?_⟩
  cases hrune : frontRune? (b :: bs) with
  | some rune =>
      obtain ⟨code, n⟩ := rune
      have hlength : frontLength (b :: bs) = n := by
        rw [frontLength, hrune]
      obtain ⟨w, rest, hbytes, rfl, hcoded⟩ := coded_of_frontRune? hrune
      obtain ⟨c, hc⟩ := hcoded.exists_char
      rw [hlength, hbytes, List.take_left]
      exact Or.inl ⟨c, hc.symm⟩
  | none =>
      have hlength : frontLength (b :: bs) = 1 := by
        rw [frontLength, hrune]
      rw [hlength]
      refine Or.inr ⟨rfl, ?_⟩
      rintro c ⟨rest, hrest⟩
      rw [← hrest, (coded_utf8EncodeChar c).frontRune?] at hrune
      exact nomatch hrune

end Bytes

end ShiftReduce
