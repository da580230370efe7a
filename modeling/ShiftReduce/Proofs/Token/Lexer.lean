import ShiftReduce.Proofs.Token.Front

/-! # Cutting again — tokens survive being written out with blanks between them

    Suppose that no terminal contains a blank.  The token at the front of an
    input depends on its lexeme only: a longer terminal would reach into what
    follows, and a rune never grows over a blank.  So wherever the lexeme stands
    before a blank or at the end, the same token is cut off (`firm_of_front`).
    Every token of an input is firm in this sense (`tokenize_eq`), and the
    lexemes of firm tokens with blanks between them are cut into the same tokens
    at other places (`face_tokenize`).  The input may be no valid UTF-8. -/

namespace ShiftReduce

variable {σ : Type}

/-- A token without its place. -/
def Token.face (t : Token σ) : σ × Bytes :=
  (t.symbol, t.lexeme)

theorem Token.symbol_eq {t t' : Token σ} (h : t.face = t'.face) : t.symbol = t'.symbol :=
  congrArg Prod.fst h

theorem Token.lexeme_eq {t t' : Token σ} (h : t.face = t'.face) : t.lexeme = t'.lexeme :=
  congrArg Prod.snd h

namespace Lexer

variable [Alphabet σ]

/-- No terminal contains a blank. -/
def Unspaced (terminals : List σ) : Prop :=
  ∀ t ∈ terminals, ∀ b ∈ Alphabet.spell t, isSpace b = false

/-- What can follow a word: a blank, or nothing at all. -/
def Gap (rest : Bytes) : Prop :=
  ∀ b ∈ rest.head?, isSpace b = true

theorem gap_nil : Gap [] := by
  intro b hb
  exact nomatch hb

/-- A word without blanks that begins a text reaches at most to the gap. -/
theorem Gap.isPrefix {word text rest : Bytes} (hgap : Gap rest)
    (hword : ∀ b ∈ word, isSpace b = false) (h : word <+: text ++ rest) : word <+: text := by
  by_cases hle : word.length ≤ text.length
  · exact List.prefix_of_prefix_length_le h (List.prefix_append text rest) hle
  · -- otherwise the word would have the first byte of the gap in it
    exfalso
    have hlt : text.length < word.length := Nat.lt_of_not_le hle
    have hbyte : (text ++ rest)[text.length]? = some (word.get ⟨text.length, hlt⟩) := by
      obtain ⟨more, hmore⟩ := h
      rw [← hmore, List.getElem?_append_left hlt]
      exact List.getElem?_eq_getElem hlt
    rw [List.getElem?_append_right (Nat.le_refl _), Nat.sub_self, ← List.head?_eq_getElem?] at hbyte
    have hblank := hgap _ hbyte
    rw [hword _ (List.get_mem word ⟨text.length, hlt⟩)] at hblank
    exact nomatch hblank

/-! ## Before a gap -/

/-- The longest match stays the same if the input is cut behind it and a gap is
    put there. -/
theorem longest_take {terminals : List σ} (h : Unspaced terminals) {input : Bytes} {n : Nat}
    (hn : width (longest terminals input) ≤ n) {rest : Bytes} (hgap : Gap rest) :
    longest terminals (input.take n ++ rest) = longest terminals input := by
  refine longest_congr ?_
  intro t ht
  constructor
  · intro hbegins
    have htake := List.take_prefix n input
    exact (hgap.isPrefix (h t ht) hbegins).trans htake
  · intro hbegins
    have hle := Nat.le_trans (length_le_longest ht hbegins) hn
    exact (List.prefix_take_iff.mpr ⟨hbegins, hle⟩).trans (List.prefix_append _ rest)

/-- A blank does not go on with a rune. -/
theorem not_isTail_of_isSpace {b : UInt8} (h : isSpace b = true) : Bytes.isTail b = false := by
  simp only [isSpace, Bool.or_eq_true, Bool.and_eq_true, beq_iff_eq, decide_eq_true_eq,
    UInt8.le_iff_toNat_le, ← UInt8.toNat_inj] at h
  simp only [Bytes.isTail, Bool.and_eq_false_iff, decide_eq_false_iff_not, UInt8.le_iff_toNat_le]
  refine Or.inl ?_
  have h20 : (0x20 : UInt8).toNat = 32 := rfl
  have h0D : (0x0D : UInt8).toNat = 13 := rfl
  have h80 : (0x80 : UInt8).toNat = 128 := rfl
  omega

/-- A byte that stands alone does so before every gap. -/
theorem frontRune?_gap {a : UInt8} {bs rest : Bytes} (h : Bytes.frontRune? (a :: bs) = none)
    (hgap : Gap rest) : Bytes.frontRune? (a :: rest) = none := by
  have hone : ¬ a < 0x80 := by
    intro hone
    simp [Bytes.frontRune?.eq_def, hone] at h
  rw [Bytes.frontRune?.eq_def]
  dsimp only
  rw [if_neg hone]
  rcases rest with _ | ⟨b, _ | ⟨c, _ | ⟨d, rest⟩⟩⟩
  · simp
  · simp [not_isTail_of_isSpace (hgap b rfl)]
  · simp [not_isTail_of_isSpace (hgap b rfl)]
  · simp [not_isTail_of_isSpace (hgap b rfl)]

/-- A rune is as long before every gap. -/
theorem frontLength_take (a : UInt8) (bs : Bytes) {rest : Bytes} (hgap : Gap rest) :
    Bytes.frontLength ((a :: bs).take (Bytes.frontLength (a :: bs)) ++ rest)
      = Bytes.frontLength (a :: bs) := by
  cases hrune : Bytes.frontRune? (a :: bs) with
  | none =>
      have hlength : Bytes.frontLength (a :: bs) = 1 := by
        rw [Bytes.frontLength, hrune]
      rw [hlength]
      show Bytes.frontLength (a :: rest) = 1
      rw [Bytes.frontLength, frontRune?_gap hrune hgap]
  | some rune =>
      obtain ⟨code, n⟩ := rune
      have hlength : Bytes.frontLength (a :: bs) = n := by
        rw [Bytes.frontLength, hrune]
      obtain ⟨-, -, hsame⟩ := Bytes.frontRune?_take hrune
      rw [hlength, Bytes.frontLength, hsame rest]

/-! ## Fronts -/

section Fronts

variable {terminals : List σ} {b : UInt8} {rest : Bytes}

/-- Blanks are skipped: a terminal that is found there would begin with the blank. -/
theorem front_of_blank (h : Unspaced terminals) (hb : isSpace b = true) :
    front terminals (b :: rest) = .blanks ((b :: rest).takeWhile isSpace).length := by
  cases hfront : front terminals (b :: rest) with
  | blanks n =>
      obtain ⟨rfl, -, -⟩ := front_blanks hfront
      rfl
  | terminal t =>
      obtain ⟨hmem, hpos, hbegins, -⟩ := front_terminal hfront
      obtain ⟨a, word, hspell⟩ := List.exists_cons_of_length_pos hpos
      rw [hspell, List.cons_prefix_cons] at hbegins
      have hblank := h t hmem a (by rw [hspell]; exact List.mem_cons_self)
      rw [hbegins.1, hb] at hblank
      exact absurd hblank Bool.noConfusion
  | unmatched n =>
      obtain ⟨-, hrun, -⟩ := front_unmatched hfront
      rw [List.takeWhile_cons_of_pos hb] at hrun
      exact absurd hrun (List.cons_ne_nil _ _)

/-- A token that is cut off its lexeme wherever a gap follows it. -/
structure Firm (terminals : List σ) (t : Token σ) : Prop where
  word : ∃ b w, t.lexeme = b :: w ∧ isSpace b = false
  symbol : t.symbol ∈ terminals ∨ t.symbol = Alphabet.unmatched
  cut : ∀ rest, Gap rest → (front terminals (t.lexeme ++ rest)).symbol? = some t.symbol ∧
    (front terminals (t.lexeme ++ rest)).length = t.lexeme.length

/-- The lexeme of a front decides on the front, as long as a gap follows. -/
theorem front_take (h : Unspaced terminals) (hb : isSpace b = false) (rest : Bytes)
    {rest' : Bytes} (hgap : Gap rest') :
    front terminals ((b :: rest).take (front terminals (b :: rest)).length ++ rest')
      = front terminals (b :: rest) := by
  obtain ⟨hpos, -⟩ := front_length terminals (List.cons_ne_nil b rest)
  -- a front that is not empty begins with the same byte, which is no blank
  obtain ⟨m, hm⟩ := Nat.exists_eq_add_of_lt hpos
  have hword : (b :: rest).take (front terminals (b :: rest)).length ++ rest'
      = b :: (rest.take (0 + m) ++ rest') := by
    rw [hm]
    rfl
  have hwidth : width (longest terminals (b :: rest)) ≤ (front terminals (b :: rest)).length := by
    rw [front_of_word hb]
    cases longest terminals (b :: rest) with
    | some t => exact Nat.le_refl _
    | none => exact Nat.zero_le _
  have hsame := longest_take h hwidth hgap
  rw [hword] at hsame ⊢
  rw [front_of_word hb, front_of_word hb, hsame]
  cases hlongest : longest terminals (b :: rest) with
  | some t => rfl
  | none =>
      have hfront : (front terminals (b :: rest)).length = Bytes.frontLength (b :: rest) := by
        rw [front_of_word hb, hlongest]
        rfl
      have hlength := frontLength_take b rest hgap
      rw [← hfront, hword, hfront] at hlength
      dsimp only
      rw [hlength]

/-- The token at the front of an input is firm. -/
theorem firm_of_front (h : Unspaced terminals) (position : Nat) {t : Token σ}
    (ht : (front terminals (b :: rest)).token? position (b :: rest) = some t) :
    Firm terminals t := by
  have hb : isSpace b = false := by
    refine Bool.eq_false_iff.mpr ?_
    intro hb
    rw [front_of_blank h hb] at ht
    exact nomatch ht
  obtain ⟨hpos, hle⟩ := front_length terminals (List.cons_ne_nil b rest)
  rw [Front.token?, Option.map_eq_some_iff] at ht
  obtain ⟨x, hx, rfl⟩ := ht
  refine ⟨?_, ?_, ?_⟩
  · obtain ⟨m, hm⟩ := Nat.exists_eq_add_of_lt hpos
    refine ⟨b, rest.take (0 + m), ?_, hb⟩
    show (b :: rest).take _ = _
    rw [hm]
    rfl
  · rw [front_of_word hb] at hx
    cases hlongest : longest terminals (b :: rest) with
    | some t =>
        rw [hlongest] at hx
        obtain rfl := Option.some.inj hx
        exact Or.inl (longest_eq_some hlongest).1
    | none =>
        rw [hlongest] at hx
        exact Or.inr (Option.some.inj hx).symm
  · intro rest' hgap
    dsimp only
    rw [front_take h hb rest hgap, hx, List.length_take, Nat.min_eq_left hle]
    exact ⟨rfl, rfl⟩

end Fronts

/-! ## Whole inputs -/

section Inputs

variable {terminals : List σ}

/-- Front by front, nothing but firm tokens is cut off before the end. -/
theorem tokensFrom_eq (h : Unspaced terminals) : ∀ (fuel position : Nat) (input : Bytes),
    ∃ body stop, tokensFrom terminals fuel position input = body ++ [Token.endAt stop] ∧
      ∀ t ∈ body, Firm terminals t := by
  intro fuel
  induction fuel with
  | zero =>
      intro position input
      exact ⟨[], position, rfl, nofun⟩
  | succ fuel ih =>
      intro position input
      cases input with
      | nil => exact ⟨[], position, rfl, nofun⟩
      | cons b rest =>
          obtain ⟨body, stop, hbody, hfirm⟩ := ih (position + (front terminals (b :: rest)).length)
            ((b :: rest).drop (front terminals (b :: rest)).length)
          refine ⟨((front terminals (b :: rest)).token? position (b :: rest)).toList ++ body, stop,
            ?_, ?_⟩
          · rw [tokensFrom, hbody, List.append_assoc]
          · intro t ht
            rcases List.mem_append.mp ht with ht | ht
            · exact firm_of_front h position (Option.mem_toList.mp ht)
            · exact hfirm t ht

/-- The tokens of an input are firm, with an end marker behind them. -/
theorem tokenize_eq (h : Unspaced terminals) (input : Bytes) :
    ∃ body stop, tokenize terminals input = body ++ [Token.endAt stop] ∧
      ∀ t ∈ body, Firm terminals t := by
  rw [tokenize_eq_tokensFrom]
  exact tokensFrom_eq h input.length 0 input

/-- A firm token is cut off. -/
theorem Firm.tokensFrom {t : Token σ} (ht : Firm terminals t) {rest : Bytes} (hgap : Gap rest)
    (fuel position : Nat) :
    (tokensFrom terminals (fuel + 1) position (t.lexeme ++ rest)).map Token.face
      = t.face :: (tokensFrom terminals fuel (position + t.lexeme.length) rest).map Token.face := by
  obtain ⟨hsymbol, hlength⟩ := ht.cut rest hgap
  obtain ⟨b, w, hlexeme, -⟩ := ht.word
  have hunfold : Lexer.tokensFrom terminals (fuel + 1) position (t.lexeme ++ rest)
      = ((front terminals (t.lexeme ++ rest)).token? position (t.lexeme ++ rest)).toList
        ++ Lexer.tokensFrom terminals fuel
          (position + (front terminals (t.lexeme ++ rest)).length)
          ((t.lexeme ++ rest).drop (front terminals (t.lexeme ++ rest)).length) := by
    rw [hlexeme]
    rfl
  rw [hunfold, Front.token?, hsymbol, hlength, List.drop_left, List.take_left]
  rfl

/-- One blank before a word is skipped. -/
theorem tokensFrom_blank (h : Unspaced terminals) {rest : Bytes}
    (hrest : ∀ b ∈ rest.head?, isSpace b = false) (fuel position : Nat) :
    tokensFrom terminals (fuel + 1) position (32 :: rest)
      = tokensFrom terminals fuel (position + 1) rest := by
  have hrun : ((32 :: rest).takeWhile isSpace).length = 1 := by
    rw [List.takeWhile_cons_of_pos (by rfl)]
    cases rest with
    | nil => rfl
    | cons b rest =>
        have hb := hrest b rfl
        rw [List.takeWhile_cons_of_neg (by rw [hb]; exact Bool.false_ne_true)]
        rfl
  rw [tokensFrom, front_of_blank h (by rfl), hrun]
  rfl

/-- Behind the first lexeme there is a blank and the others. -/
theorem joinBlank_cons (lexeme lexeme' : Bytes) (lexemes : List Bytes) :
    Bytes.joinBlank (lexeme :: lexeme' :: lexemes)
      = lexeme ++ 32 :: Bytes.joinBlank (lexeme' :: lexemes) := by
  simp [Bytes.joinBlank]

/-- The text of some tokens does not begin with a blank if the first token does
    not. -/
theorem head_joinBlank {w : Bytes} (hb : isSpace b = false) (lexemes : List Bytes) :
    ∀ a ∈ (Bytes.joinBlank ((b :: w) :: lexemes)).head?, isSpace a = false := by
  have hhead : (Bytes.joinBlank ((b :: w) :: lexemes)).head? = some b := by
    cases lexemes with
    | nil => simp [Bytes.joinBlank]
    | cons lexeme lexemes => rw [joinBlank_cons, List.cons_append, List.head?_cons]
  intro a ha
  rw [hhead] at ha
  rw [← Option.some.inj ha]
  exact hb

/-- Firm tokens, written out with blanks between them, are cut out again. -/
theorem face_tokensFrom (h : Unspaced terminals) : ∀ {body : List (Token σ)},
    (∀ t ∈ body, Firm terminals t) → ∀ (fuel position : Nat),
      (Bytes.joinBlank (body.map Token.lexeme)).length ≤ fuel →
        (tokensFrom terminals fuel position (Bytes.joinBlank (body.map Token.lexeme))).map Token.face
          = body.map Token.face ++ [(Alphabet.endMarker, [])] := by
  intro body
  induction body with
  | nil =>
      intro _ fuel position _
      cases fuel with
      | zero => rfl
      | succ fuel => rfl
  | cons t body ih =>
      intro hfirm fuel position hfuel
      have ht := hfirm t List.mem_cons_self
      have hrest := fun u hu => hfirm u (List.mem_cons_of_mem t hu)
      obtain ⟨b, w, hlexeme, -⟩ := ht.word
      have hpos : 0 < t.lexeme.length := by
        rw [hlexeme]
        exact Nat.succ_pos _
      cases body with
      | nil =>
          have hjoin : Bytes.joinBlank [t.lexeme] = t.lexeme ++ [] := by
            simp [Bytes.joinBlank]
          rw [List.map_singleton, hjoin] at hfuel ⊢
          rw [List.append_nil] at hfuel
          obtain ⟨fuel, rfl⟩ := Nat.exists_eq_add_of_le' (Nat.lt_of_lt_of_le hpos hfuel)
          rw [ht.tokensFrom gap_nil]
          cases fuel with
          | zero => rfl
          | succ fuel => rfl
      | cons u body =>
          have hjoin : Bytes.joinBlank ((t :: u :: body).map Token.lexeme)
              = t.lexeme ++ 32 :: Bytes.joinBlank ((u :: body).map Token.lexeme) :=
            joinBlank_cons t.lexeme u.lexeme (body.map Token.lexeme)
          rw [hjoin] at hfuel ⊢
          rw [List.length_append, List.length_cons] at hfuel
          -- one front for the token and one for the blank behind it
          obtain ⟨fuel, rfl⟩ : ∃ m, fuel = m + 1 + 1 := ⟨fuel - 2, by omega⟩
          have hgap : Gap (32 :: Bytes.joinBlank ((u :: body).map Token.lexeme)) := by
            intro b hb
            obtain rfl := Option.some.inj hb
            rfl
          have hword : ∀ b ∈ (Bytes.joinBlank ((u :: body).map Token.lexeme)).head?,
              isSpace b = false := by
            obtain ⟨b', w', hlexeme', hb'⟩ := (hrest u List.mem_cons_self).word
            rw [List.map_cons, hlexeme']
            exact head_joinBlank hb' _
          rw [ht.tokensFrom hgap, tokensFrom_blank h hword, ih hrest fuel _ (by omega)]
          rfl

/-- The lexemes of firm tokens, with blanks between them, have the same
    tokens. -/
theorem face_tokenize (h : Unspaced terminals) {body : List (Token σ)}
    (hfirm : ∀ t ∈ body, Firm terminals t) :
    (tokenize terminals (Bytes.joinBlank (body.map Token.lexeme))).map Token.face
      = body.map Token.face ++ [(Alphabet.endMarker, [])] := by
  rw [tokenize_eq_tokensFrom]
  exact face_tokensFrom h hfirm _ 0 (Nat.le_refl _)

end Inputs

end Lexer

end ShiftReduce
