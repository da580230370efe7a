import Mathlib.Data.List.Basic
import ShiftReduce.Proofs.Text.Rune

/-! # Keeping bytes — a text that can be told back

    The pieces of a byte string are its bytes, in order (`flatMap_bytes_pieces`).
    A stray byte has the top bit set, as each byte of a character does that is
    taken for a byte, so the last 128 code points are enough to keep them.  Hence
    `ofKept` is a left inverse of `toKept` on all byte strings (`ofKept_toKept`),
    and two of them never become the same text. -/

namespace ShiftReduce

namespace Bytes

/-- The bytes that a piece was read from. -/
def Piece.bytes : Piece → Bytes
  | .char c => String.utf8EncodeChar c
  | .stray b => [b]

/-! ## Pieces -/

/-- A well-formed sequence is the code of the character with its code point. -/
theorem Coded.utf8EncodeChar_ofNat {w : Bytes} {code : Nat} (h : Coded w code) :
    String.utf8EncodeChar (Char.ofNat code) = w := by
  obtain ⟨c, rfl⟩ := h.exists_char
  -- both code points are read from the same bytes
  have hcode := h.frontRune? []
  rw [(coded_utf8EncodeChar c).frontRune?] at hcode
  obtain ⟨rfl, -⟩ := Prod.mk.inj (Option.some.inj hcode)
  rw [Char.ofNat_toNat]

/-- The pieces behind the skipped bytes are made of the bytes behind them. -/
theorem flatMap_bytes_piecesFrom (bs : Bytes) :
    ∀ skip, (piecesFrom skip bs).flatMap Piece.bytes = bs.drop skip := by
  induction bs with
  | nil =>
      intro skip
      rw [List.drop_nil]
      cases skip <;> rfl
  | cons b rest ih =>
      intro skip
      cases skip with
      | succ skip =>
          rw [piecesFrom, List.drop_succ_cons]
          exact ih skip
      | zero =>
          rw [piecesFrom, List.drop_zero]
          cases hrune : frontRune? (b :: rest) with
          | none =>
              show b :: (piecesFrom 0 rest).flatMap Piece.bytes = b :: rest
              rw [ih 0, List.drop_zero]
          | some rune =>
              obtain ⟨code, n⟩ := rune
              -- the rune is written as the bytes it was read
              -- from, and the skip passes the rest of them
              obtain ⟨w, behind, hbytes, rfl, hcoded⟩ := coded_of_frontRune? hrune
              obtain ⟨a, w, rfl⟩ := List.exists_cons_of_length_pos hcoded.length_pos
              obtain ⟨rfl, hrest⟩ := List.cons.inj hbytes
              have hbehind : rest.drop w.length = behind := by
                rw [hrest]
                exact List.drop_left
              show String.utf8EncodeChar (Char.ofNat code)
                ++ (piecesFrom w.length rest).flatMap Piece.bytes = b :: rest
              rw [hcoded.utf8EncodeChar_ofNat, ih, hbehind, hrest]
              rfl

/-- No byte is lost between the pieces, and none is read twice. -/
theorem flatMap_bytes_pieces (bs : Bytes) : (pieces bs).flatMap Piece.bytes = bs := by
  rw [pieces, flatMap_bytes_piecesFrom, List.drop_zero]

/-- A byte that stands alone has the top bit set. -/
theorem le_of_stray {bs : Bytes} {b : UInt8} :
    ∀ {skip : Nat}, Piece.stray b ∈ piecesFrom skip bs → 128 ≤ b.toNat := by
  induction bs with
  | nil =>
      intro skip h
      cases skip <;> exact nomatch h
  | cons a rest ih =>
      intro skip h
      cases skip with
      | succ skip =>
          rw [piecesFrom] at h
          exact ih h
      | zero =>
          rw [piecesFrom] at h
          cases hrune : frontRune? (a :: rest) with
          | some rune =>
              rw [hrune] at h
              rcases List.mem_cons.mp h with heq | h
              · exact nomatch heq
              · exact ih h
          | none =>
              rw [hrune] at h
              rcases List.mem_cons.mp h with heq | h
              · obtain rfl := Piece.stray.inj heq
                -- a smaller byte would be a rune
                refine Nat.le_of_not_lt ?_
                intro hlt
                have hfound := (Coded.one hlt).frontRune? rest
                rw [List.singleton_append, hrune] at hfound
                exact nomatch hfound
              · exact ih h

/-! ## Keepers -/

/-- A byte with the top bit set is told back. -/
theorem ofKeptChar_keeper {b : UInt8} (hb : 128 ≤ b.toNat) : ofKeptChar (keeper b) = [b] := by
  have hlt := b.toNat_lt
  have hcode : (keeper b).toNat = 0x10FF00 + b.toNat := by
    have hvalid : Nat.isValidChar (0x10FF00 + b.toNat) := Or.inr ⟨by omega, by omega⟩
    rw [keeper, Char.ofNat, dif_pos hvalid]
    rfl
  have hkeeper : isKeeper (keeper b) = true := by
    rw [isKeeper, hcode, decide_eq_true_eq]
    omega
  rw [ofKeptChar, if_pos hkeeper, hcode, Nat.add_sub_cancel_left, UInt8.ofNat_toNat]

/-- Every byte of a character that is taken for a byte has the top bit set. -/
theorem le_of_mem_utf8EncodeChar {c : Char} (hc : isKeeper c = true) {b : UInt8}
    (hb : b ∈ String.utf8EncodeChar c) : 128 ≤ b.toNat := by
  rw [isKeeper, decide_eq_true_eq] at hc
  have hcoded := coded_utf8EncodeChar c
  generalize String.utf8EncodeChar c = w at hb hcoded
  generalize c.toNat = code at hc hcoded
  have tail : ∀ {b : UInt8}, isTail b = true → 128 ≤ b.toNat := fun h => (isTail_iff.mp h).1
  -- only a code point above the two shorter forms is a keeper, and its four bytes are high
  cases hcoded with
  | one ha => omega
  | two ha hb' =>
      rw [isTail_iff] at hb'
      have hbits : ∀ b, tailBits b = b.toNat - 128 := fun _ => rfl
      rw [hbits] at hc
      omega
  | three ha hb' hc' hlow hhigh =>
      rw [isTail_iff] at hb' hc'
      have hbits : ∀ b, tailBits b = b.toNat - 128 := fun _ => rfl
      rw [hbits, hbits] at hc
      omega
  | four ha hb' hc' hd' hlow hhigh =>
      simp only [List.mem_cons, List.not_mem_nil, or_false] at hb
      rcases hb with rfl | rfl | rfl | rfl
      · omega
      · exact tail hb'
      · exact tail hc'
      · exact tail hd'

/-- A piece is told back, if its byte has the top bit set where it stands alone. -/
theorem flatMap_ofKeptChar_kept {p : Piece} (h : ∀ b, p = .stray b → 128 ≤ b.toNat) :
    p.kept.flatMap ofKeptChar = p.bytes := by
  cases p with
  | stray b =>
      show ofKeptChar (keeper b) ++ [] = [b]
      rw [ofKeptChar_keeper (h b rfl), List.append_nil]
  | char c =>
      by_cases hc : isKeeper c = true
      · rw [Piece.kept, if_pos hc, List.flatMap_map]
        have hbytes : ∀ b ∈ String.utf8EncodeChar c, ofKeptChar (keeper b) = [b] :=
          fun b hb => ofKeptChar_keeper (le_of_mem_utf8EncodeChar hc hb)
        rw [List.flatMap_congr hbytes]
        exact List.flatMap_singleton' _
      · rw [Piece.kept, if_neg hc, List.flatMap_singleton, ofKeptChar, if_neg hc]
        rfl

/-- **No byte is lost.**  Every byte string, UTF-8 or not, is told back from the text
    that keeps it. -/
theorem ofKept_toKept (bs : Bytes) : ofKept (toKept bs) = bs := by
  have hpieces : ∀ p ∈ pieces bs, p.kept.flatMap ofKeptChar = p.bytes := by
    intro p hp
    refine flatMap_ofKeptChar_kept ?_
    rintro b rfl
    exact le_of_stray hp
  calc ofKept (toKept bs)
      = ((pieces bs).flatMap Piece.kept).flatMap ofKeptChar := by
        rw [ofKept, toKept, String.toList_ofList]
    _ = (pieces bs).flatMap fun p => p.kept.flatMap ofKeptChar := List.flatMap_assoc ..
    _ = (pieces bs).flatMap Piece.bytes := List.flatMap_congr hpieces
    _ = bs := flatMap_bytes_pieces bs

/-- A stray byte before a character, and a private character that is given up to its
    four bytes. -/
example : toKept [255, 195, 169] = String.ofList [Char.ofNat 0x10FFFF, 'é'] ∧
    ofKept (toKept [244, 143, 191, 191]) = [244, 143, 191, 191] := by
  decide +kernel

end Bytes

end ShiftReduce
