import Mathlib.Data.List.Basic
import Mathlib.Data.List.Induction
import Mathlib.Data.List.TakeWhile
import ShiftReduce.Proofs.Text.Rune
import ShiftReduce.Token.Lexer

/-! # Fronts — an input piece by piece

    A tokenizer asks the matcher for a token, and the matcher passes over any number
    of blanks before it finds one.  Proofs look at one piece of the input at a time: a
    run of blanks, a terminal, or a rune that nothing matches (`front`).  What each of
    them can be is said once, one lemma for each kind.

    Front by front an input has the same tokens as one call after the other
    (`delivers_tokensFrom`).  That needs no bound: handing out tokens stops by itself
    (`Tokenizer.Delivers`), and `tokenize` counts far enough
    (`tokenize_eq_tokensFrom`). -/

namespace ShiftReduce

variable {σ : Type}

namespace Lexer

variable [Alphabet σ]

/-! ## The longest terminal -/

/-- The number of bytes of what has been found. -/
def width : Option σ → Nat
  | some s => (Alphabet.spell s).length
  | none => 0

/-- A terminal takes the place of the one found so far when it is longer and the input
    begins with it. -/
theorem better_eq (input : Bytes) (found : Option σ) (t : σ) :
    better input found t
      = if width found < (Alphabet.spell t).length && (Alphabet.spell t).isPrefixOf input then some t
        else found := by
  cases found with
  | none => rfl
  | some s => rfl

/-- The last terminal is tried last, so it wins only when it is strictly longer. -/
theorem longest_snoc (terminals : List σ) (t : σ) (input : Bytes) :
    longest (terminals ++ [t]) input = better input (longest terminals input) t := by
  rw [longest, List.foldl_concat]
  rfl

/-- What is found is a terminal that the input begins with. -/
theorem longest_eq_some {terminals : List σ} {input : Bytes} {t : σ}
    (h : longest terminals input = some t) :
    t ∈ terminals ∧ 0 < (Alphabet.spell t).length ∧ Alphabet.spell t <+: input := by
  induction terminals using List.reverseRecOn with
  | nil => exact nomatch h
  | append_singleton terminals u ih =>
      rw [longest_snoc, better_eq] at h
      split at h
      · rename_i hcond
        obtain rfl := Option.some.inj h
        rw [Bool.and_eq_true, decide_eq_true_eq, List.isPrefixOf_iff_prefix] at hcond
        exact ⟨by simp, Nat.lt_of_le_of_lt (Nat.zero_le _) hcond.1, hcond.2⟩
      · obtain ⟨hmem, hpos, hbegins⟩ := ih h
        exact ⟨List.mem_append_left _ hmem, hpos, hbegins⟩

/-- No terminal that the input begins with is longer. -/
theorem length_le_longest {terminals : List σ} {input : Bytes} {t : σ}
    (ht : t ∈ terminals) (h : Alphabet.spell t <+: input) :
    (Alphabet.spell t).length ≤ width (longest terminals input) := by
  -- from the end, since the last terminal is compared with the longest of the others
  induction terminals using List.reverseRecOn with
  | nil => exact nomatch ht
  | append_singleton terminals u ih =>
      rw [longest_snoc, better_eq]
      by_cases hcond : (decide (width (longest terminals input) < (Alphabet.spell u).length)
          && (Alphabet.spell u).isPrefixOf input) = true
      · rw [if_pos hcond]
        rw [Bool.and_eq_true, decide_eq_true_eq] at hcond
        rcases List.mem_append.mp ht with ht | ht
        · exact Nat.le_trans (ih ht) (Nat.le_of_lt hcond.1)
        · rw [List.mem_singleton.mp ht]
          exact Nat.le_refl _
      · rw [if_neg hcond]
        rcases List.mem_append.mp ht with ht | ht
        · exact ih ht
        · obtain rfl := List.mem_singleton.mp ht
          refine Nat.le_of_not_lt ?_
          intro hlt
          refine hcond ?_
          rw [Bool.and_eq_true, decide_eq_true_eq, List.isPrefixOf_iff_prefix]
          exact ⟨hlt, h⟩

/-- The longest terminal depends on the terminals that the input begins with. -/
theorem longest_congr {terminals : List σ} {input input' : Bytes}
    (h : ∀ t ∈ terminals, (Alphabet.spell t <+: input ↔ Alphabet.spell t <+: input')) :
    longest terminals input = longest terminals input' := by
  refine List.foldl_ext _ _ _ ?_
  intro found t ht
  have hsame : (Alphabet.spell t).isPrefixOf input = (Alphabet.spell t).isPrefixOf input' := by
    rw [Bool.eq_iff_iff, List.isPrefixOf_iff_prefix, List.isPrefixOf_iff_prefix]
    exact h t ht
  rw [better_eq, better_eq, hsame]

/-! ## The matcher -/

section Matches

variable {terminals : List σ} {input : Bytes}

/-- Blanks match as a whole run, and no terminal is longer. -/
theorem match?_blanks {n : Nat} (h : match? terminals input = some (.blanks n)) :
    n = (input.takeWhile isSpace).length ∧ 0 < n ∧
      ∀ t ∈ terminals, Alphabet.spell t <+: input → (Alphabet.spell t).length ≤ n := by
  rw [match?] at h
  cases hlongest : longest terminals input with
  | some t =>
      simp only [hlongest] at h
      -- blanks win over a terminal that is not longer
      obtain ⟨-, hpos, -⟩ := longest_eq_some hlongest
      split at h
      · rename_i hle
        obtain rfl := Match.blanks.inj (Option.some.inj h)
        refine ⟨rfl, Nat.lt_of_lt_of_le hpos hle, ?_⟩
        intro u hu hbegins
        have hwidth := length_le_longest hu hbegins
        rw [hlongest] at hwidth
        exact Nat.le_trans hwidth hle
      · cases h
  | none =>
      simp only [hlongest] at h
      split at h
      · rename_i hpos
        obtain rfl := Match.blanks.inj (Option.some.inj h)
        refine ⟨rfl, hpos, ?_⟩
        intro u hu hbegins
        have hwidth := length_le_longest hu hbegins
        rw [hlongest] at hwidth
        exact Nat.le_trans hwidth (Nat.zero_le _)
      · cases h

/-- A terminal that matches is the longest one. -/
theorem match?_terminal {t : σ} (h : match? terminals input = some (.terminal t)) :
    t ∈ terminals ∧ 0 < (Alphabet.spell t).length ∧ Alphabet.spell t <+: input ∧
      ∀ u ∈ terminals, Alphabet.spell u <+: input →
        (Alphabet.spell u).length ≤ (Alphabet.spell t).length := by
  rw [match?] at h
  cases hlongest : longest terminals input with
  | some t' =>
      simp only [hlongest] at h
      obtain ⟨hmem, hpos, hbegins⟩ := longest_eq_some hlongest
      split at h
      · cases h
      · obtain rfl := Match.terminal.inj (Option.some.inj h)
        refine ⟨hmem, hpos, hbegins, ?_⟩
        intro u hu hu'
        have hwidth := length_le_longest hu hu'
        rw [hlongest] at hwidth
        exact hwidth
  | none =>
      simp only [hlongest] at h
      split at h
      · cases h
      · cases h

/-- Nothing matches only where no terminal and no blank begins. -/
theorem match?_none (h : match? terminals input = none) :
    input.takeWhile isSpace = [] ∧
      ∀ t ∈ terminals, Alphabet.spell t ≠ [] → ¬ Alphabet.spell t <+: input := by
  rw [match?] at h
  cases hlongest : longest terminals input with
  | some t =>
      simp only [hlongest] at h
      split at h
      · cases h
      · cases h
  | none =>
      simp only [hlongest] at h
      split at h
      · cases h
      · rename_i hrun
        refine ⟨List.length_eq_zero_iff.mp (by omega), ?_⟩
        intro t ht hne hbegins
        have hwidth := length_le_longest ht hbegins
        rw [hlongest] at hwidth
        exact hne (List.length_eq_zero_iff.mp (Nat.le_zero.mp hwidth))

/-- Where no blank begins, the longest terminal matches if there is one. -/
theorem match?_of_word {b : UInt8} {rest : Bytes} (hb : isSpace b = false) :
    match? terminals (b :: rest) = (longest terminals (b :: rest)).map Match.terminal := by
  have hrun : ((b :: rest).takeWhile isSpace).length = 0 := by
    rw [List.takeWhile_cons_of_neg (by rw [hb]; exact Bool.false_ne_true)]
    rfl
  rw [match?, hrun]
  cases hlongest : longest terminals (b :: rest) with
  | none => rfl
  | some t =>
      obtain ⟨-, hpos, -⟩ := longest_eq_some hlongest
      dsimp only
      rw [if_neg (by omega)]
      rfl

end Matches

/-! ## Fronts -/

/-- What an input begins with. -/
inductive Front (σ : Type) where
  | blanks (length : Nat)
  | terminal (t : σ)
  | unmatched (length : Nat)

/-- What matches at the front of an input, or else a rune. -/
def front (terminals : List σ) (input : Bytes) : Front σ :=
  match match? terminals input with
  | some (.blanks n) => .blanks n
  | some (.terminal t) => .terminal t
  | none => .unmatched (Bytes.frontLength input)

namespace Front

/-- The number of bytes that a front covers. -/
def length : Front σ → Nat
  | .blanks n => n
  | .terminal t => (Alphabet.spell t).length
  | .unmatched n => n

/-- The symbol of the token that a front gives. -/
def symbol? : Front σ → Option σ
  | .blanks _ => none
  | .terminal t => some t
  | .unmatched _ => some Alphabet.unmatched

/-- The token that a front gives; blanks give none. -/
def token? (position : Nat) (input : Bytes) (f : Front σ) : Option (Token σ) :=
  f.symbol?.map fun t =>
    { symbol := t, lexeme := input.take f.length, span := ⟨position, position + f.length⟩ }

end Front

section Fronts

variable {terminals : List σ} {input : Bytes}

/-- The matcher sees every front but a rune. -/
theorem match?_eq_front (terminals : List σ) (input : Bytes) :
    match? terminals input = match front terminals input with
      | .blanks n => some (.blanks n)
      | .terminal t => some (.terminal t)
      | .unmatched _ => none := by
  rw [front]
  cases match? terminals input with
  | none => rfl
  | some m =>
      cases m with
      | blanks n => rfl
      | terminal t => rfl

/-- A front of blanks is the whole run, and no terminal is longer. -/
theorem front_blanks {n : Nat} (h : front terminals input = .blanks n) :
    n = (input.takeWhile isSpace).length ∧ 0 < n ∧
      ∀ t ∈ terminals, Alphabet.spell t <+: input → (Alphabet.spell t).length ≤ n :=
  match?_blanks (by rw [match?_eq_front, h])

/-- A terminal at the front is the longest one. -/
theorem front_terminal {t : σ} (h : front terminals input = .terminal t) :
    t ∈ terminals ∧ 0 < (Alphabet.spell t).length ∧ Alphabet.spell t <+: input ∧
      ∀ u ∈ terminals, Alphabet.spell u <+: input →
        (Alphabet.spell u).length ≤ (Alphabet.spell t).length :=
  match?_terminal (by rw [match?_eq_front, h])

/-- A front that is unmatched is a rune where no terminal and no blank begins. -/
theorem front_unmatched {n : Nat} (h : front terminals input = .unmatched n) :
    n = Bytes.frontLength input ∧ input.takeWhile isSpace = [] ∧
      ∀ t ∈ terminals, Alphabet.spell t ≠ [] → ¬ Alphabet.spell t <+: input := by
  have hnone : match? terminals input = none := by rw [match?_eq_front, h]
  rw [front, hnone] at h
  exact ⟨(Front.unmatched.inj h).symm, match?_none hnone⟩

/-- Where no blank begins, the front is a terminal or a rune. -/
theorem front_of_word {b : UInt8} {rest : Bytes} (hb : isSpace b = false) :
    front terminals (b :: rest) = match longest terminals (b :: rest) with
      | some t => .terminal t
      | none => .unmatched (Bytes.frontLength (b :: rest)) := by
  rw [front, match?_of_word hb]
  cases longest terminals (b :: rest) with
  | none => rfl
  | some t => rfl

/-- A front covers something, and no more than there is. -/
theorem front_length (terminals : List σ) (hne : input ≠ []) :
    0 < (front terminals input).length ∧ (front terminals input).length ≤ input.length := by
  cases hfront : front terminals input with
  | blanks n =>
      obtain ⟨rfl, hpos, -⟩ := front_blanks hfront
      exact ⟨hpos, (List.takeWhile_prefix _).length_le⟩
  | terminal t =>
      obtain ⟨-, hpos, hbegins, -⟩ := front_terminal hfront
      exact ⟨hpos, hbegins.length_le⟩
  | unmatched n =>
      obtain ⟨rfl, -, -⟩ := front_unmatched hfront
      obtain ⟨b, rest, rfl⟩ := List.exists_cons_of_ne_nil hne
      exact Bytes.frontLength_bounds b rest

/-- Only blanks give no token. -/
theorem blanks_of_token? {f : Front σ} {p : Nat} (h : f.token? p input = none) :
    ∃ n, f = .blanks n := by
  cases f with
  | blanks n => exact ⟨n, rfl⟩
  | terminal t => exact nomatch h
  | unmatched n => exact nomatch h

/-- There are no blanks behind a front of blanks. -/
theorem space_behind {n : Nat} (h : front terminals input = .blanks n) :
    ∀ b ∈ (input.drop n).head?, isSpace b = false := by
  obtain ⟨rfl, -, -⟩ := front_blanks h
  have hdrop : input.drop (input.takeWhile isSpace).length = input.dropWhile isSpace :=
    calc input.drop (input.takeWhile isSpace).length
        = (input.takeWhile isSpace ++ input.dropWhile isSpace).drop
            (input.takeWhile isSpace).length := by rw [List.takeWhile_append_dropWhile]
      _ = input.dropWhile isSpace := List.drop_left
  intro b hb
  have hhead := List.head?_dropWhile_not isSpace input
  rw [hdrop] at hb
  rw [hb] at hhead
  simpa using hhead

end Fronts

/-- The tokens from a position on, front by front, with fuel for as many fronts. -/
def tokensFrom (terminals : List σ) : Nat → Nat → Bytes → List (Token σ)
  | 0, position, _ => [Token.endAt position]
  | _ + 1, position, [] => [Token.endAt position]
  | fuel + 1, position, b :: rest =>
    let input := b :: rest
    let f := front terminals input
    (f.token? position input).toList
      ++ tokensFrom terminals fuel (position + f.length) (input.drop f.length)

/-- Every front gives one token at most, and the end is one more. -/
theorem length_tokensFrom_le (terminals : List σ) : ∀ (fuel position : Nat) (input : Bytes),
    (tokensFrom terminals fuel position input).length ≤ fuel + 1 := by
  intro fuel
  induction fuel with
  | zero =>
      intro position input
      exact Nat.le_refl _
  | succ fuel ih =>
      intro position input
      cases input with
      | nil => exact Nat.succ_le_succ (Nat.zero_le _)
      | cons b rest =>
          have hrest := ih (position + (front terminals (b :: rest)).length)
            ((b :: rest).drop (front terminals (b :: rest)).length)
          have hone : ((front terminals (b :: rest)).token? position (b :: rest)).toList.length ≤ 1 :=
            Option.length_toList_le
          rw [tokensFrom, List.length_append]
          omega

/-! ## The search for a token -/

section Search

variable {terminals : List σ}

/-- The fuel of a search is never felt, as long as there is some for every byte. -/
theorem search_fuel (terminals : List σ) : ∀ (fuel fuel' : Nat) (input : Bytes),
    input.length ≤ fuel → input.length ≤ fuel' →
      search terminals fuel input = search terminals fuel' input := by
  intro fuel
  induction fuel with
  | zero =>
      intro fuel' input hfuel _
      obtain rfl := List.length_eq_zero_iff.mp (Nat.le_zero.mp hfuel)
      cases fuel' with
      | zero => rfl
      | succ fuel' => rfl
  | succ fuel ih =>
      intro fuel' input hfuel hfuel'
      cases input with
      | nil =>
          cases fuel' with
          | zero => rfl
          | succ fuel' => rfl
      | cons b rest =>
          obtain ⟨fuel', rfl⟩ := Nat.exists_eq_add_of_le' (Nat.lt_of_lt_of_le
            (Nat.succ_pos rest.length) hfuel')
          rw [search, search]
          cases hmatch : match? terminals (b :: rest) with
          | none => rfl
          | some m =>
              cases m with
              | terminal t => rfl
              | blanks n =>
                  obtain ⟨-, hpos, -⟩ := match?_blanks hmatch
                  -- blanks have been passed, so any fuel that reaches to the end is left
                  have hshorter : ((b :: rest).drop n).length < (b :: rest).length := by
                    rw [List.length_drop, List.length_cons]
                    omega
                  dsimp only
                  rw [ih fuel' ((b :: rest).drop n) (by omega) (by omega)]

/-- Blanks are passed over. -/
theorem search_blanks {input : Bytes} (hne : input ≠ []) {n : Nat}
    (h : front terminals input = .blanks n) :
    search terminals input.length input
      = (search terminals (input.drop n).length (input.drop n)).behind n := by
  obtain ⟨b, rest, rfl⟩ := List.exists_cons_of_ne_nil hne
  obtain ⟨-, hpos, -⟩ := front_blanks h
  have hshorter : ((b :: rest).drop n).length ≤ rest.length := by
    rw [List.length_drop, List.length_cons]
    omega
  rw [List.length_cons, search, match?_eq_front, h]
  dsimp only
  rw [search_fuel terminals rest.length _ _ hshorter (Nat.le_refl _)]

/-- A terminal is found where it stands. -/
theorem search_terminal {input : Bytes} (hne : input ≠ []) {t : σ}
    (h : front terminals input = .terminal t) :
    search terminals input.length input = .found t 0 := by
  obtain ⟨b, rest, rfl⟩ := List.exists_cons_of_ne_nil hne
  rw [List.length_cons, search, match?_eq_front, h]

/-- The matcher is stuck at a rune that nothing matches. -/
theorem search_unmatched {input : Bytes} (hne : input ≠ []) {n : Nat}
    (h : front terminals input = .unmatched n) :
    search terminals input.length input = .stuck 0 := by
  obtain ⟨b, rest, rfl⟩ := List.exists_cons_of_ne_nil hne
  rw [List.length_cons, search, match?_eq_front, h]

end Search

end Lexer

/-! ## Token by token -/

namespace Tokenizer

section Moves

variable {k : Tokenizer σ}

/-- Moving on in two steps. -/
theorem skip_skip (m n : Nat) : (k.skip m).skip n = k.skip (m + n) := by
  simp [skip, List.drop_drop, Nat.add_assoc]

/-- Counting does not move. -/
theorem note_eq (k : Tokenizer σ) : ∃ c, k.note = { k with unmatched := c } := by
  rw [note]
  split
  · exact ⟨_, rfl⟩
  · exact ⟨k.unmatched, rfl⟩

/-- Counting and moving on do not disturb each other. -/
theorem note_skip (n : Nat) : (k.skip n).note = k.note.skip n := by
  by_cases hcounting : k.counting
  · simp only [note, skip, hcounting, if_true]
  · simp only [note, skip, hcounting, if_false, Bool.false_eq_true]

/-- A piece of the input is the same before and behind some bytes. -/
theorem handOut_skip (t : σ) (n start size : Nat) :
    (k.skip n).handOut t start size = k.handOut t (n + start) size := by
  simp only [handOut, skip_skip, Nat.add_assoc]
  simp [skip, List.drop_drop, Nat.add_assoc]

end Moves

variable [Alphabet σ]

section Next

variable {k : Tokenizer σ}

/-- The end is the same before and behind some bytes. -/
theorem finish_skip {n : Nat} (hn : n ≤ k.rest.length) : (k.skip n).finish = k.finish := by
  have hall : n + (k.rest.drop n).length = k.rest.length := by
    rw [List.length_drop]
    omega
  have hskip : (k.skip n).skip (k.skip n).rest.length = k.skip k.rest.length := by
    rw [skip_skip, ← hall]
    rfl
  simp only [finish, hskip]

/-- What is found behind some bytes is answered as from there. -/
theorem answer_behind {n : Nat} (hn : n ≤ k.rest.length) (f : Lexer.Finding σ) :
    k.answer (f.behind n) = (k.skip n).answer f := by
  cases f with
  | ended => exact (finish_skip hn).symm
  | found t start => exact (handOut_skip t n start _).symm
  | stuck start =>
      have hlength : start < (k.skip n).rest.length ↔ n + start < k.rest.length := by
        show start < (k.rest.drop n).length ↔ _
        rw [List.length_drop]
        omega
      have hbytes : (k.skip n).rest.drop start = k.rest.drop (n + start) := by
        show (k.rest.drop n).drop start = _
        rw [List.drop_drop]
      simp only [answer, Lexer.Finding.behind, hlength, hbytes, note_skip, handOut_skip]
      split
      · rfl
      · rw [finish_skip]
        obtain ⟨c, hnote⟩ := note_eq k
        rw [hnote]
        exact hn

/-- At the end of the input, the end is handed out. -/
theorem next_of_nil (h : k.rest = []) : k.next = k.finish := by
  rw [next, h]
  split
  · rfl
  · rfl

/-- Blanks at the front are passed over. -/
theorem next_of_blanks (hopen : k.finished = false) (hne : k.rest ≠ []) {n : Nat}
    (h : Lexer.front k.terminals k.rest = .blanks n) : k.next = (k.skip n).next := by
  obtain ⟨-, hle⟩ := Lexer.front_length k.terminals hne
  rw [h] at hle
  have hopen' : (k.skip n).finished = false := hopen
  rw [next, next, hopen, hopen', Lexer.search_blanks hne h]
  exact answer_behind hle _

/-- A front that gives a token is handed out, and the rest remains. -/
theorem next_of_token (hopen : k.finished = false) (hne : k.rest ≠ []) {t : Token σ}
    (h : (Lexer.front k.terminals k.rest).token? k.position k.rest = some t) :
    k.next.1 = t ∧ ∃ c, k.next.2 =
      { k.skip (Lexer.front k.terminals k.rest).length with unmatched := c } := by
  rw [next, hopen]
  cases hfront : Lexer.front k.terminals k.rest with
  | blanks n =>
      rw [hfront] at h
      exact nomatch h
  | terminal a =>
      rw [hfront] at h
      obtain rfl := Option.some.inj h
      rw [Lexer.search_terminal hne hfront]
      simp [answer, handOut, Lexer.Front.length, skip]
  | unmatched n =>
      obtain ⟨rfl, -, -⟩ := Lexer.front_unmatched hfront
      rw [hfront] at h
      obtain rfl := Option.some.inj h
      rw [Lexer.search_unmatched hne hfront]
      obtain ⟨c, hnote⟩ := note_eq k
      have hpos : 0 < k.rest.length := List.length_pos_iff.mpr hne
      simp [answer, handOut, Lexer.Front.length, skip, hnote, hpos]

end Next

/-- The tokens that are handed out one after the other until the end of the input is
    reported. -/
inductive Delivers : Tokenizer σ → List (Token σ) → Prop where
  | last {k : Tokenizer σ} (h : k.next.2.finished = true) : Delivers k [k.next.1]
  | more {k : Tokenizer σ} {ts : List (Token σ)} (h : k.next.2.finished = false)
      (hrest : Delivers k.next.2 ts) : Delivers k (k.next.1 :: ts)

/-- What is delivered depends only on the next call. -/
theorem Delivers.of_next_eq {k k' : Tokenizer σ} {ts : List (Token σ)} (h : k.next = k'.next)
    (hk : Delivers k ts) : Delivers k' ts := by
  cases hk with
  | last hlast =>
      rw [h] at hlast ⊢
      exact .last hlast
  | more hmore hrest =>
      rw [h] at hmore hrest ⊢
      exact .more hmore hrest

/-- What is delivered is what `drain` lists, given enough fuel. -/
theorem Delivers.drain_eq {k : Tokenizer σ} {ts : List (Token σ)} (h : Delivers k ts) :
    ∀ fuel, ts.length ≤ fuel → drain fuel k = ts := by
  induction h with
  | last hlast =>
      intro fuel hfuel
      obtain ⟨fuel, rfl⟩ : ∃ m, fuel = m + 1 := Nat.exists_eq_add_of_le' hfuel
      rw [drain, if_pos hlast]
  | more hmore _ ih =>
      intro fuel hfuel
      rw [List.length_cons] at hfuel
      obtain ⟨fuel, rfl⟩ := Nat.exists_eq_add_of_le' (Nat.lt_of_lt_of_le (Nat.succ_pos _) hfuel)
      rw [drain, if_neg (by rw [hmore]; exact Bool.false_ne_true), ih fuel (by omega)]

/-- At the end of the input nothing but the end is delivered. -/
theorem delivers_end {k : Tokenizer σ} (h : k.rest = []) :
    Delivers k [Token.endAt k.position] := by
  have hfinish : k.next = (Token.endAt k.position, { k with finished := true }) := by
    rw [next_of_nil h]
    simp [finish, skip, h]
  have hlast : Delivers k [k.next.1] := .last (by rw [hfinish])
  rw [hfinish] at hlast
  exact hlast

/-- Handing out tokens one after the other ends, and gives the tokens front by
    front. -/
theorem delivers_tokensFrom : ∀ (fuel : Nat) (k : Tokenizer σ), k.finished = false →
    k.rest.length ≤ fuel → Delivers k (Lexer.tokensFrom k.terminals fuel k.position k.rest) := by
  intro fuel
  induction fuel with
  | zero =>
      intro k _ hfuel
      exact delivers_end (List.length_eq_zero_iff.mp (Nat.le_zero.mp hfuel))
  | succ fuel ih =>
      intro k hopen hfuel
      cases hrest : k.rest with
      | nil => exact delivers_end hrest
      | cons b rest =>
          rw [Lexer.tokensFrom, ← hrest]
          have hne : k.rest ≠ [] := by
            rw [hrest]
            exact List.cons_ne_nil b rest
          obtain ⟨hpos, -⟩ := Lexer.front_length k.terminals hne
          have hshorter : (k.rest.drop (Lexer.front k.terminals k.rest).length).length ≤ fuel := by
            rw [List.length_drop]
            omega
          -- blanks are passed within the call; any other front is handed out by it
          cases htoken : (Lexer.front k.terminals k.rest).token? k.position k.rest with
          | none =>
              obtain ⟨n, hfront⟩ := Lexer.blanks_of_token? htoken
              have hrun := ih (k.skip n) hopen (by rw [hfront] at hshorter; exact hshorter)
              rw [hfront]
              exact hrun.of_next_eq (next_of_blanks hopen hne hfront).symm
          | some t =>
              obtain ⟨rfl, c, hnext⟩ := next_of_token hopen hne htoken
              refine .more (by rw [hnext]; exact hopen) ?_
              rw [hnext]
              exact ih { k.skip (Lexer.front k.terminals k.rest).length with unmatched := c }
                hopen hshorter

end Tokenizer

/-- The tokens of an input are those of its fronts. -/
theorem Lexer.tokenize_eq_tokensFrom [Alphabet σ] (terminals : List σ) (input : Bytes) :
    tokenize terminals input = tokensFrom terminals input.length 0 input := by
  have hdelivers := Tokenizer.delivers_tokensFrom input.length { terminals, rest := input } rfl
    (Nat.le_refl _)
  exact hdelivers.drain_eq _ (length_tokensFrom_le terminals input.length 0 input)

end ShiftReduce
