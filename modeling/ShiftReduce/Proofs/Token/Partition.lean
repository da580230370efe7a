import Mathlib.Data.List.Chain
import ShiftReduce.Proofs.Token.Front

/-! # Partitions — tokens and skipped blanks make up the input

    Whatever the terminals and the bytes are, `tokenize` cuts the input into the
    spans of its tokens and runs of blanks between them (`tokenize_partition`).
    Terminals may be byte strings, and one may end within a rune of the input.
    Each token is the longest terminal where it begins, or a rune that nothing
    matches (`Cut`); each run of blanks is as long as possible and at least as
    long as every terminal that matches where it begins (`Apart`).

    The tokens are taken front by front.  A front of blanks widens the gap before
    the next token, and every other front puts a token before the rest. -/

namespace ShiftReduce

variable {σ : Type} [Alphabet σ]

namespace Lexer

/-- The input has a terminal at a position. -/
def MatchesAt (input : Bytes) (position : Nat) (t : σ) : Prop :=
  Alphabet.spell t <+: input.drop position

/-- The input has a blank at a position. -/
def SpaceAt (input : Bytes) (position : Nat) : Prop :=
  ∃ b, input[position]? = some b ∧ isSpace b = true

/-! ## Tokens and gaps -/

/-- What every token but the last one is: the longest terminal where it begins, or
    a rune where neither a terminal nor a blank begins. -/
structure Cut (terminals : List σ) (input : Bytes) (t : Token σ) : Prop where
  nonempty : t.span.start < t.span.stop
  inside : t.span.stop ≤ input.length
  lexeme : t.lexeme = (input.drop t.span.start).take (t.span.stop - t.span.start)
  symbol : t.symbol ∈ terminals ∨ t.symbol = Alphabet.unmatched
  longest : t.symbol ∈ terminals → t.lexeme = Alphabet.spell t.symbol ∧
    ∀ u ∈ terminals, MatchesAt input t.span.start u →
      (Alphabet.spell u).length ≤ t.lexeme.length
  unmatched : t.symbol = Alphabet.unmatched ↔
    (∀ u ∈ terminals, Alphabet.spell u ≠ [] → ¬ MatchesAt input t.span.start u) ∧
      ¬ SpaceAt input t.span.start
  rune : t.symbol = Alphabet.unmatched → Bytes.IsFrontRune (input.drop t.span.start) t.lexeme

/-- What lies between two neighbouring spans: nothing, or a whole run of blanks that
    no terminal which matches at its beginning is longer than. -/
structure Apart (terminals : List σ) (input : Bytes) (s t : Span) : Prop where
  le : s.stop ≤ t.start
  spaces : ∀ i, s.stop ≤ i → i < t.start → SpaceAt input i
  whole : s.stop < t.start → ¬ SpaceAt input t.start
  longest : s.stop < t.start → ∀ u ∈ terminals, MatchesAt input s.stop u →
    (Alphabet.spell u).length ≤ t.start - s.stop

section Steps

variable {terminals : List σ} {input : Bytes} {p : Nat}

theorem spaceAt_iff : SpaceAt input p ↔ ∃ b ∈ (input.drop p).head?, isSpace b = true := by
  rw [SpaceAt, List.head?_drop]
  rfl

/-- The bytes of a front of blanks are blanks, and a run of them ends there. -/
theorem spaceAt_of_blanks {n : Nat} (h : front terminals (input.drop p) = .blanks n) :
    (∀ i, p ≤ i → i < p + n → SpaceAt input i) ∧ ¬ SpaceAt input (p + n) := by
  constructor
  · obtain ⟨rfl, -, -⟩ := front_blanks h
    intro i hp hi
    obtain ⟨j, rfl⟩ := Nat.exists_eq_add_of_le hp
    have hj : j < ((input.drop p).takeWhile isSpace).length := by omega
    have hbyte := List.getElem?_eq_getElem hj
    refine ⟨_, ?_, List.mem_takeWhile_imp (List.getElem_mem hj)⟩
    rw [← List.getElem?_drop, ← hbyte]
    obtain ⟨rest, hrest⟩ := List.takeWhile_prefix (l := input.drop p) isSpace
    conv_lhs => rw [← hrest]
    exact List.getElem?_append_left hj
  · rw [spaceAt_iff, ← List.drop_drop]
    rintro ⟨b, hb, hspace⟩
    rw [space_behind h b hb] at hspace
    exact nomatch hspace

/-- The longest terminal at a position is cut out of the input there. -/
theorem cut_of_terminal (hunmatched : Alphabet.unmatched ∉ terminals) {a : σ}
    (h : front terminals (input.drop p) = .terminal a) (hpos : 0 < (Alphabet.spell a).length)
    (hle : p + (Alphabet.spell a).length ≤ input.length) :
    Cut terminals input ⟨a, (input.drop p).take (Alphabet.spell a).length,
      ⟨p, p + (Alphabet.spell a).length⟩⟩ := by
  obtain ⟨hmem, -, hbegins, hlongest⟩ := front_terminal h
  have hlexeme : (input.drop p).take (Alphabet.spell a).length = Alphabet.spell a :=
    (List.prefix_iff_eq_take.mp hbegins).symm
  have hneq : a ≠ Alphabet.unmatched := by
    rintro rfl
    exact hunmatched hmem
  refine ⟨Nat.lt_add_of_pos_right hpos, hle, ?_, Or.inl hmem, ?_, ?_, ?_⟩
  · show _ = (input.drop p).take (p + (Alphabet.spell a).length - p)
    rw [Nat.add_sub_cancel_left]
  · intro _
    refine ⟨hlexeme, ?_⟩
    intro u hu hmatches
    show _ ≤ ((input.drop p).take (Alphabet.spell a).length).length
    rw [hlexeme]
    exact hlongest u hu hmatches
  · -- the terminal matches where it begins, so it is neither of the two
    constructor
    · intro heq
      exact absurd heq hneq
    · rintro ⟨hnone, -⟩
      exact absurd hbegins (hnone a hmem (List.length_pos_iff.mp hpos))
  · intro heq
    exact absurd heq hneq

/-- Where nothing matches, a rune is cut out of the input. -/
theorem cut_of_unmatched (hunmatched : Alphabet.unmatched ∉ terminals) (hne : input.drop p ≠ [])
    {n : Nat} (h : front terminals (input.drop p) = .unmatched n) (hpos : 0 < n)
    (hle : p + n ≤ input.length) :
    Cut terminals input ⟨Alphabet.unmatched, (input.drop p).take n, ⟨p, p + n⟩⟩ := by
  obtain ⟨rfl, hblank, hnone⟩ := front_unmatched h
  refine ⟨Nat.lt_add_of_pos_right hpos, hle, ?_, Or.inr rfl, ?_, ?_, ?_⟩
  · show _ = (input.drop p).take (p + Bytes.frontLength (input.drop p) - p)
    rw [Nat.add_sub_cancel_left]
  · intro hmem
    exact absurd hmem hunmatched
  · -- a blank at the front would have been a run of blanks
    refine iff_of_true rfl ⟨hnone, ?_⟩
    rw [spaceAt_iff]
    rintro ⟨b, hb, hspace⟩
    obtain ⟨rest, hrest⟩ := List.head?_eq_some_iff.mp hb
    rw [hrest, List.takeWhile_cons_of_pos hspace] at hblank
    exact nomatch hblank
  · intro _
    obtain ⟨b, rest, hrest⟩ := List.exists_cons_of_ne_nil hne
    show Bytes.IsFrontRune (input.drop p) ((input.drop p).take (Bytes.frontLength (input.drop p)))
    rw [hrest]
    exact Bytes.isFrontRune_take b rest

/-- The token of a front is cut out of the input at its position. -/
theorem cut_of_front (hunmatched : Alphabet.unmatched ∉ terminals) (hp : p < input.length)
    {t : Token σ} (ht : (front terminals (input.drop p)).token? p (input.drop p) = some t) :
    Cut terminals input t ∧
      t.span = ⟨p, p + (front terminals (input.drop p)).length⟩ := by
  have hne : input.drop p ≠ [] := by
    rw [ne_eq, List.drop_eq_nil_iff]
    omega
  obtain ⟨hpos, hle⟩ := front_length terminals hne
  have hinside : p + (front terminals (input.drop p)).length ≤ input.length := by
    rw [List.length_drop] at hle
    omega
  cases hfront : front terminals (input.drop p) with
  | blanks n =>
      rw [hfront] at ht
      exact nomatch ht
  | terminal a =>
      rw [hfront] at ht hpos hinside
      obtain rfl := Option.some.inj ht
      exact ⟨cut_of_terminal hunmatched hfront hpos hinside, rfl⟩
  | unmatched n =>
      rw [hfront] at ht hpos hinside
      obtain rfl := Option.some.inj ht
      exact ⟨cut_of_unmatched hunmatched hne hfront hpos hinside, rfl⟩

/-- A front of blanks widens the gap before what follows. -/
theorem Apart.skip {n : Nat} (h : front terminals (input.drop p) = .blanks n) {s t : Span}
    (hs : s.stop = p + n) (hapart : Apart terminals input s t) (q : Nat) :
    Apart terminals input ⟨q, p⟩ t := by
  obtain ⟨hspaces, hwhole⟩ := spaceAt_of_blanks h
  obtain ⟨-, hpos, hlongest⟩ := front_blanks h
  -- no blank follows, so that the next span begins at once
  have hstart : t.start = p + n := by
    have hle := hapart.le
    rcases Nat.eq_or_lt_of_le hle with heq | hlt
    · omega
    · refine absurd (hapart.spaces (p + n) (by omega) (by omega)) hwhole
  refine ⟨?_, ?_, ?_, ?_⟩
  · show p ≤ t.start
    omega
  · intro i hp hi
    exact hspaces i hp (by omega)
  · rw [hstart]
    exact fun _ => hwhole
  · intro _ u hu hmatches
    show _ ≤ t.start - p
    have hlength := hlongest u hu hmatches
    omega

/-- Nothing lies before a span that begins at once. -/
theorem apart_of_eq {s t : Span} (h : s.stop = t.start) : Apart terminals input s t := by
  refine ⟨by omega, ?_, ?_, ?_⟩
  · intro i hs hi
    omega
  · intro hlt
    omega
  · intro hlt
    omega

end Steps

/-! ## Whole inputs -/

/-- The tokens from a position on, without the last one: each is cut out of the
    input, they stand in order, and blanks fill the gaps. -/
structure Sliced (terminals : List σ) (input : Bytes) (p : Nat) (body : List (Token σ)) : Prop where
  cut : ∀ t ∈ body, Cut terminals input t
  behind : ∀ t ∈ body, p ≤ t.span.start
  ordered : body.Pairwise fun t u => t.span.stop ≤ u.span.start
  covered : ∀ i, p ≤ i → i < input.length → (∀ t ∈ body, ¬ (t.span.start ≤ i ∧ i < t.span.stop)) →
    SpaceAt input i
  apart : ∀ q, (⟨q, p⟩ :: (body ++ [Token.endAt input.length]).map Token.span).IsChain
    (Apart terminals input)

section Slices

variable {terminals : List σ} {input : Bytes} {p : Nat} {body : List (Token σ)}

theorem sliced_nil : Sliced terminals input input.length [] where
  cut := nofun
  behind := nofun
  ordered := .nil
  covered := by
    intro i hp hi
    omega
  apart := by
    intro q
    exact List.isChain_pair.mpr (apart_of_eq rfl)

/-- Blanks before the first token are in its gap. -/
theorem Sliced.skip {n : Nat} (h : front terminals (input.drop p) = .blanks n)
    (hrest : Sliced terminals input (p + n) body) : Sliced terminals input p body where
  cut := hrest.cut
  behind := by
    intro t ht
    have hle := hrest.behind t ht
    omega
  ordered := hrest.ordered
  covered := by
    intro i hp hi hfree
    by_cases hlt : i < p + n
    · exact (spaceAt_of_blanks h).1 i hp hlt
    · exact hrest.covered i (by omega) hi hfree
  apart := by
    intro q
    have hchain := hrest.apart 0
    obtain ⟨s, spans, hspans⟩ : ∃ s spans,
        (body ++ [Token.endAt input.length]).map Token.span = s :: spans := by
      cases body with
      | nil => exact ⟨_, _, rfl⟩
      | cons t body => exact ⟨_, _, rfl⟩
    rw [hspans, List.isChain_cons_cons] at hchain ⊢
    exact ⟨hchain.1.skip h rfl q, hchain.2⟩

/-- A token goes before the tokens behind it. -/
theorem Sliced.cons {t : Token σ} (ht : Cut terminals input t) (hstart : t.span.start = p)
    (hrest : Sliced terminals input t.span.stop body) : Sliced terminals input p (t :: body) where
  cut := by
    intro u hu
    rcases List.mem_cons.mp hu with rfl | hu
    · exact ht
    · exact hrest.cut u hu
  behind := by
    intro u hu
    rcases List.mem_cons.mp hu with rfl | hu
    · omega
    · have hle := hrest.behind u hu
      have hlt := ht.nonempty
      omega
  ordered := List.pairwise_cons.mpr ⟨hrest.behind, hrest.ordered⟩
  covered := by
    intro i hp hi hfree
    have hnot := hfree t List.mem_cons_self
    exact hrest.covered i (by omega) hi fun u hu => hfree u (List.mem_cons_of_mem t hu)
  apart := by
    intro q
    refine List.isChain_cons_cons.mpr ⟨apart_of_eq hstart.symm, ?_⟩
    exact hrest.apart t.span.start

/-- The tokens from any position on slice the rest of the input. -/
theorem exists_sliced (hunmatched : Alphabet.unmatched ∉ terminals) :
    ∀ (fuel p : Nat), p ≤ input.length → input.length ≤ p + fuel →
      ∃ body, tokensFrom terminals fuel p (input.drop p) = body ++ [Token.endAt input.length] ∧
        Sliced terminals input p body := by
  intro fuel
  induction fuel with
  | zero =>
      intro p hp hfuel
      obtain rfl : p = input.length := by omega
      exact ⟨[], rfl, sliced_nil⟩
  | succ fuel ih =>
      intro p hp hfuel
      cases hinput : input.drop p with
      | nil =>
          obtain rfl : p = input.length := by
            rw [List.drop_eq_nil_iff] at hinput
            omega
          exact ⟨[], rfl, sliced_nil⟩
      | cons b rest =>
          rw [tokensFrom, ← hinput, List.drop_drop]
          have hlt : p < input.length := by
            refine Nat.lt_of_not_le ?_
            intro hle
            rw [List.drop_eq_nil_of_le hle] at hinput
            cases hinput
          have hne : input.drop p ≠ [] := by
            rw [hinput]
            exact List.cons_ne_nil b rest
          obtain ⟨hpos, hle⟩ := front_length terminals hne
          rw [List.length_drop] at hle
          obtain ⟨body, hbody, hsliced⟩ := ih (p + (front terminals (input.drop p)).length)
            (by omega) (by omega)
          rw [hbody]
          -- blanks give no token, every other front gives one
          cases htoken : (front terminals (input.drop p)).token? p (input.drop p) with
          | none =>
              obtain ⟨n, hfront⟩ := blanks_of_token? htoken
              rw [hfront] at hsliced
              exact ⟨body, rfl, hsliced.skip hfront⟩
          | some t =>
              obtain ⟨hcut, hspan⟩ := cut_of_front hunmatched hlt htoken
              have hstop : t.span.stop = p + (front terminals (input.drop p)).length := by
                rw [hspan]
              rw [← hstop] at hsliced
              exact ⟨t :: body, rfl, hsliced.cons hcut (by rw [hspan])⟩

/-- The tokens of an input, without the last one, slice it. -/
theorem exists_sliced_tokenize (hunmatched : Alphabet.unmatched ∉ terminals) (input : Bytes) :
    ∃ body, tokenize terminals input = body ++ [Token.endAt input.length] ∧
      Sliced terminals input 0 body := by
  rw [tokenize_eq_tokensFrom]
  exact exists_sliced hunmatched input.length 0 (Nat.zero_le _) (by omega)

end Slices

end Lexer

/-! ## The partition -/

/-- **Tokens partition the input.**  Let no terminal be named like the unmatched
    symbol.  Handing out tokens until the end is reported stops, with the tokens of
    `tokenize`; the last token, and no other, is the end of the input, at its length;
    the other tokens are cut out of the input by longest match and stand in order;
    every byte outside their spans is a blank; and the gaps before, between and behind
    them are whole runs of blanks that no terminal which matches there is longer than.
    A token before the last one has the end marker as its symbol only if the end
    marker is a terminal. -/
theorem Lexer.tokenize_partition {terminals : List σ}
    (hunmatched : Alphabet.unmatched ∉ terminals) (input : Bytes) :
    Tokenizer.Delivers { terminals, rest := input } (tokenize terminals input) ∧
    ∃ body, tokenize terminals input = body ++ [Token.endAt input.length] ∧
      Token.endAt input.length ∉ body ∧
      (Alphabet.endMarker ∉ terminals → ∀ t ∈ body, t.symbol ≠ Alphabet.endMarker) ∧
      (∀ t ∈ body, Cut terminals input t) ∧
      (body.Pairwise fun t u => t.span.stop ≤ u.span.start) ∧
      (∀ i < input.length, (∀ t ∈ body, ¬ (t.span.start ≤ i ∧ i < t.span.stop)) →
        SpaceAt input i) ∧
      (Span.point 0 :: (tokenize terminals input).map Token.span).IsChain
        (Apart terminals input) := by
  obtain ⟨body, htokens, hsliced⟩ := exists_sliced_tokenize hunmatched input
  have hdelivers : Tokenizer.Delivers { terminals, rest := input } (tokenize terminals input) := by
    rw [tokenize_eq_tokensFrom]
    exact Tokenizer.delivers_tokensFrom input.length { terminals, rest := input } rfl
      (Nat.le_refl _)
  refine ⟨hdelivers, body, htokens, ?_, ?_, hsliced.cut, hsliced.ordered, ?_, ?_⟩
  · intro hmem
    exact absurd (hsliced.cut _ hmem).nonempty (Nat.lt_irrefl _)
  · intro hend t ht heq
    rcases (hsliced.cut t ht).symbol with hmem | hsymbol
    · rw [heq] at hmem
      exact hend hmem
    · rw [heq] at hsymbol
      exact Alphabet.unmatched_ne_endMarker hsymbol.symm
  · intro i hi hfree
    exact hsliced.covered i (Nat.zero_le i) hi hfree
  · rw [htokens]
    exact hsliced.apart 0

/-- Terminals that are no UTF-8: the byte `C3` is cut off the rune `C3 A9`, whose other
    byte stands alone then, as `FF` does.  Two blanks are skipped although a terminal
    begins with a blank, and one blank loses against that terminal. -/
theorem Lexer.tokenize_partition_stray :
    (Alphabet.unmatched : Bytes) ∉ [[195], [97], [97, 98], [32, 98]] ∧
    ∃ body : List (Token Bytes),
      tokenize [[195], [97], [97, 98], [32, 98]] [97, 98, 32, 32, 98, 195, 169, 255, 32, 98]
        = body ++ [Token.endAt 10] ∧
      body.map Token.symbol = [[97, 98], Alphabet.unmatched, [195], Alphabet.unmatched,
        Alphabet.unmatched, [32, 98]] ∧
      ∀ t ∈ body, Cut [[195], [97], [97, 98], [32, 98]]
        [97, 98, 32, 32, 98, 195, 169, 255, 32, 98] t := by
  have hunmatched : (Alphabet.unmatched : Bytes) ∉ [[195], [97], [97, 98], [32, 98]] := by decide
  obtain ⟨-, body, htokens, -, -, hcut, -⟩ :=
    tokenize_partition hunmatched [97, 98, 32, 32, 98, 195, 169, 255, 32, 98]
  have hsymbols : (tokenize ([[195], [97], [97, 98], [32, 98]] : List Bytes)
        [97, 98, 32, 32, 98, 195, 169, 255, 32, 98]).map Token.symbol
      = [[97, 98], Alphabet.unmatched, [195], Alphabet.unmatched, Alphabet.unmatched, [32, 98]]
        ++ [Alphabet.endMarker] := by decide +kernel
  rw [htokens, List.map_append] at hsymbols
  exact ⟨hunmatched, body, htokens, List.append_inj_left' hsymbols rfl, hcut⟩

end ShiftReduce
