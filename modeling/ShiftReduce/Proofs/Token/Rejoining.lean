import ShiftReduce.Proofs.Token.Lexer

/-! # Joining again — lexemes with blanks between them have the same tokens

    The tokens of an input may touch each other, and what is no terminal may
    stand anywhere between them.  Written out with one blank between each two
    lexemes, they come back with the same symbols and lexemes and an end behind
    them (`tokenize_joinBlank`): a blank neither lets two tokens grow together
    nor makes one of them fall apart.  That holds for every list of firm tokens
    (`exists_rejoined`), hence for what is left of an input as well as for all
    of it. -/

namespace ShiftReduce

namespace Lexer

variable {σ : Type} [Alphabet σ] {terminals : List σ}

/-! ## The end -/

/-- The last token is the end of the input, at its length. -/
theorem tokensFrom_end (terminals : List σ) : ∀ (fuel position : Nat) (input : Bytes),
    input.length ≤ fuel → ∃ body, tokensFrom terminals fuel position input
      = body ++ [Token.endAt (position + input.length)] := by
  intro fuel
  induction fuel with
  | zero =>
      intro position input hfuel
      obtain rfl := List.length_eq_zero_iff.mp (Nat.le_zero.mp hfuel)
      exact ⟨[], rfl⟩
  | succ fuel ih =>
      intro position input hfuel
      cases input with
      | nil => exact ⟨[], rfl⟩
      | cons b rest =>
          obtain ⟨hpos, hle⟩ := front_length terminals (List.cons_ne_nil b rest)
          obtain ⟨body, hbody⟩ := ih (position + (front terminals (b :: rest)).length)
            ((b :: rest).drop (front terminals (b :: rest)).length)
            (by rw [List.length_drop]; omega)
          have hend : position + (front terminals (b :: rest)).length
              + ((b :: rest).drop (front terminals (b :: rest)).length).length
              = position + (b :: rest).length := by
            rw [List.length_drop]
            omega
          rw [hend] at hbody
          refine ⟨((front terminals (b :: rest)).token? position (b :: rest)).toList ++ body, ?_⟩
          rw [tokensFrom, hbody, List.append_assoc]

/-- The tokens of an input end with its end. -/
theorem tokenize_end (terminals : List σ) (input : Bytes) :
    ∃ body, tokenize terminals input = body ++ [Token.endAt input.length] := by
  obtain ⟨body, hbody⟩ := tokensFrom_end terminals input.length 0 input (Nat.le_refl _)
  rw [Nat.zero_add] at hbody
  rw [tokenize_eq_tokensFrom]
  exact ⟨body, hbody⟩

/-! ## The same tokens -/

/-- Firm tokens come back if they are written out with blanks between them. -/
theorem exists_rejoined (h : Unspaced terminals) {body : List (Token σ)}
    (hfirm : ∀ t ∈ body, Firm terminals t) :
    ∃ again, tokenize terminals (Bytes.joinBlank (body.map Token.lexeme))
        = again ++ [Token.endAt (Bytes.joinBlank (body.map Token.lexeme)).length] ∧
      again.map Token.face = body.map Token.face := by
  obtain ⟨again, hagain⟩ := tokenize_end terminals (Bytes.joinBlank (body.map Token.lexeme))
  have hfaces := face_tokenize h hfirm
  rw [hagain, List.map_append] at hfaces
  exact ⟨again, hagain, List.append_inj_left' hfaces rfl⟩

/-- **Joining lexemes by blanks and cutting again is the identity.**  Let no terminal
    contain a blank; terminals are texts or any byte strings.  The tokens of any input,
    valid UTF-8 or not, are a list with an end marker behind it.  The lexemes of that
    list with one blank between each two have tokens with the same symbols and the same
    lexemes, and an end marker behind them. -/
theorem tokenize_joinBlank (h : Unspaced terminals) (input : Bytes) :
    ∃ body, tokenize terminals input = body ++ [Token.endAt input.length] ∧
      ∃ again, tokenize terminals (Bytes.joinBlank (body.map Token.lexeme))
          = again ++ [Token.endAt (Bytes.joinBlank (body.map Token.lexeme)).length] ∧
        again.map Token.face = body.map Token.face := by
  obtain ⟨body, hbody⟩ := tokenize_end terminals input
  obtain ⟨body', stop, hbody', hfirm⟩ := tokenize_eq h input
  -- both say what the tokens are
  obtain rfl : body' = body := List.append_inj_left' (hbody'.symm.trans hbody) rfl
  exact ⟨body', hbody, exists_rejoined h hfirm⟩

/-- The longer terminal `ab`, the byte `FF`, the first byte of a rune as a terminal and
    its second byte, which a blank keeps apart, and the whole rune as another terminal:
    all of them come back. -/
theorem tokenize_joinBlank_stray :
    Unspaced ([[97], [97, 98], [195], [195, 169]] : List Bytes) ∧
    ∃ body : List (Token Bytes),
      tokenize [[97], [97, 98], [195], [195, 169]] [97, 98, 255, 97, 195, 32, 169, 195, 169]
        = body ++ [Token.endAt 9] ∧
      Bytes.joinBlank (body.map Token.lexeme)
        = [97, 98, 32, 255, 32, 97, 32, 195, 32, 169, 32, 195, 169] ∧
      ∃ again, tokenize [[97], [97, 98], [195], [195, 169]]
            (Bytes.joinBlank (body.map Token.lexeme))
          = again ++ [Token.endAt 13] ∧
        again.map Token.face = body.map Token.face ∧
        again.map Token.symbol
          = [[97, 98], Alphabet.unmatched, [97], [195], Alphabet.unmatched, [195, 169]] := by
  have hblanks : Unspaced ([[97], [97, 98], [195], [195, 169]] : List Bytes) := by
    show ∀ t ∈ [[97], [97, 98], [195], [195, 169]], ∀ b ∈ t, isSpace b = false
    decide +kernel
  obtain ⟨body, hbody, again, hagain, hfaces⟩ :=
    tokenize_joinBlank hblanks [97, 98, 255, 97, 195, 32, 169, 195, 169]
  have htokens : (tokenize ([[97], [97, 98], [195], [195, 169]] : List Bytes)
        [97, 98, 255, 97, 195, 32, 169, 195, 169]).map Token.face
      = [([97, 98], [97, 98]), (Alphabet.unmatched, [255]), ([97], [97]), ([195], [195]),
          (Alphabet.unmatched, [169]), ([195, 169], [195, 169])] ++ [(Alphabet.endMarker, [])] := by
    decide +kernel
  rw [hbody, List.map_append] at htokens
  have hbodyFaces := List.append_inj_left' htokens rfl
  have hlexemes : body.map Token.lexeme = [[97, 98], [255], [97], [195], [169], [195, 169]] := by
    have hsnd := congrArg (List.map Prod.snd) hbodyFaces
    rw [List.map_map] at hsnd
    exact hsnd
  have hjoin : Bytes.joinBlank (body.map Token.lexeme)
      = [97, 98, 32, 255, 32, 97, 32, 195, 32, 169, 32, 195, 169] := by
    rw [hlexemes]
    rfl
  refine ⟨hblanks, body, hbody, hjoin, again, ?_, hfaces, ?_⟩
  · rw [hagain, hjoin]
    rfl
  · have hfst := congrArg (List.map Prod.fst) (hfaces.trans hbodyFaces)
    rw [List.map_map] at hfst
    exact hfst

end Lexer

end ShiftReduce
