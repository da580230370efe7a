import ShiftReduce.Proofs.Parser.Outcome

/-! # Error location — nothing is shifted too far

    If every nonterminal derives a word, then what the parser has shifted can
    always be continued to a sentence: its stack spells a path of the
    automaton, and such a path has a completion.  This holds with conflicts,
    too, and also where the table lets the parser reduce before it notices an
    error.  Without conflicts, a syntax error is moreover reported at the first
    token that cannot stand there: on any sentence that begins with the same
    tokens the parser would make the same moves and stop with the same error,
    although it accepts all sentences. -/

namespace ShiftReduce

namespace Simulator

variable {g : Grammar} {s : Symbol} {rest : List Token} {last : Token} {n k : Nat}
  {steps : List Step} {d : Configuration} {f : Forest}

/-- The tokens that a run from a fresh configuration has consumed. -/
theorem exists_consumed (hruns : Runs g (Table.ofGrammar g) n (.fresh rest last) steps d)
    (hprogress : Progress (.fresh rest last) [] n steps d f) :
    ∃ front, rest = front ++ d.rest ∧ front.map Token.symbol = shifted steps := by
  obtain ⟨front, hfront⟩ := hruns.rest_suffix
  obtain ⟨hword, hinput, -⟩ := hprogress.of_fresh
  refine ⟨front, hfront.symm, ?_⟩
  rw [show rest = front ++ d.rest from hfront.symm, List.map_append] at hinput
  rw [← hword]
  exact (List.append_cancel_right hinput).symm

/-- At every step of a trace that ends with one step more, the symbols that have
    been shifted are those of the tokens that are gone, and a word completes
    them. -/
theorem exists_completion_of_step (h : Table.Tabular g s) (hp : g.Productive)
    (hclosed : ∃ e, rest.getLast? = some e ∧ e.symbol = Symbol.endMarker)
    (hruns : Runs g (Table.ofGrammar g) n (.fresh rest last) steps d) (hd : Legal g d k f)
    (hprogress : Progress (.fresh rest last) [] n steps d f) {final : Step}
    (hrest : final.rest = d.rest) (hshift : final.shifted? = none) (i : Nat) (st : Step)
    (hst : (steps ++ [final])[i]? = some st) :
    ∃ front, rest = front ++ st.rest ∧
      front.map Token.symbol = shifted ((steps ++ [final]).take (i + 1)) ∧
      ∃ y, g.Derives [s] (front.map Token.symbol ++ y) ∧ g.IsWord (front.map Token.symbol ++ y) := by
  have hfinal : shifted (steps ++ [final]) = shifted steps := by
    rw [shifted_append]
    simp [shifted, hshift]
  obtain ⟨front, hfront, hsymbols⟩ : ∃ front, rest = front ++ st.rest ∧
      front.map Token.symbol = shifted ((steps ++ [final]).take (i + 1)) := by
    by_cases hi : i < steps.length
    · rw [List.getElem?_append_left hi] at hst
      rw [List.take_append_of_le_length hi]
      exact (legal_fresh g last hclosed).step_rest h hruns i st hst
    · obtain ⟨hlt, -⟩ := List.getElem?_eq_some_iff.mp hst
      rw [List.length_append, List.length_singleton] at hlt
      obtain rfl : i = steps.length := by omega
      obtain rfl : final = st := by simpa using hst
      rw [List.take_of_length_le (by simp), hfinal, hrest]
      exact exists_consumed hruns hprogress
  refine ⟨front, hfront, hsymbols, ?_⟩
  -- what was shifted up to here is the beginning of the word of the last trees
  obtain ⟨z, hz⟩ := hd.stacked.exists_completed h hp
  obtain ⟨hder, hword⟩ := hz.derives_word h
  obtain ⟨more, hmore⟩ : front.map Token.symbol <+: f.word := by
    rw [hsymbols, hprogress.of_fresh.1, ← hfinal]
    exact shifted_take _ _
  rw [← hmore, List.append_assoc] at hder hword
  exact ⟨more ++ z, hder, hword⟩

/-- Without conflicts, no input that begins with the consumed tokens and the
    token of a syntax error is a word of the grammar. -/
theorem not_derives_of_error (h : Table.Tabular g s) (hfree : (Table.ofGrammar g).conflicts = [])
    (hruns : Runs g (Table.ofGrammar g) n (.fresh rest last) steps d) (hd : Legal g d k f)
    (hturn : turn g (Table.ofGrammar g) d = d.stop (.syntaxError d.state d.lookahead) false)
    {front : List Token} (hfront : rest = front ++ d.rest) {body behind : List Token} {e : Token}
    (he : e.symbol = Symbol.endMarker) (hbody : body ++ [e] = front ++ d.lookahead :: behind)
    (hword : g.IsWord (body.map Token.symbol)) : ¬ g.Derives [s] (body.map Token.symbol) := by
  intro hder
  obtain ⟨m, steps₀, d₀, hruns₀, hend₀⟩ :=
    exists_accepting_run_of_derives h hfree hder hword body e rfl he last
  -- the run to the error takes place on the other input, too
  have hcommon : rest = (front ++ [d.lookahead]) ++ d.rest.tail := by
    rw [hfront, hd.rest_eq]
    simp
  obtain ⟨steps', hruns'⟩ := hruns.withInput (front ++ [d.lookahead]) [d.lookahead] hcommon
    hd.rest_eq (by simp) behind last
  have hinput : (front ++ [d.lookahead]) ++ behind = body ++ [e] := by
    rw [hbody]
    simp
  rw [hinput] at hruns'
  have halike := turn_alike (g := g) (t := Table.ofGrammar g) (c := d)
    (show (d.withInput ([d.lookahead] ++ behind) last).lookahead = d.lookahead from rfl)
  rw [hturn] at halike
  generalize hother : turn g (Table.ofGrammar g) (d.withInput ([d.lookahead] ++ behind) last)
    = other at halike
  cases halike with
  | ends =>
      rw [hruns'.eq_of_ends hruns₀ hother hend₀, hend₀] at hother
      exact nomatch (Turn.ends.inj hother).2.1

end Simulator

open Simulator in
/-- **Error location.**  If every nonterminal derives a word, then at every step
    of a parse the shifted tokens are the beginning of a sentence.  If moreover
    the table has no conflicts and the parse ends with a syntax error at a token,
    then the shifted tokens and this token are not; and if the token is the end
    marker, the shifted tokens are no sentence. -/
theorem Compiled.error_located {g : Grammar} {c : Compilation} (h : Compiled g c)
    (hp : g.Productive) (limit : Nat) (tokens : List Token) :
    (∀ (i : Nat) (st : Step), (c.parse g limit tokens).steps[i]? = some st →
      ∃ front, closeTokens tokens = front ++ st.rest ∧
        front.map Token.symbol = shifted ((c.parse g limit tokens).steps.take (i + 1)) ∧
        ∃ y, g.Sentence (front.map Token.symbol ++ y)) ∧
    (c.table.hasConflicts = false → ∀ (state : Int) (a : Token),
      (c.parse g limit tokens).last?.map Step.move = some (.syntaxError state a) →
      ∃ front behind, closeTokens tokens = front ++ a :: behind ∧
        front.map Token.symbol = shifted (c.parse g limit tokens).steps ∧
        (∀ y, ¬ g.Sentence (front.map Token.symbol ++ a.symbol :: y)) ∧
        (a.symbol = Symbol.endMarker → ¬ g.Sentence (front.map Token.symbol))) := by
  have hg := h.tabular
  have hp' := h.wellFormed.productive_augmented hp
  have hclosed := closeTokens_closed tokens
  have hsentence := fun w => h.wellFormed.sentence_iff_augmented (w := w)
  obtain ⟨last, hparse⟩ := h.parse_eq limit tokens
  have houtcome := play_outcome hg limit last hclosed
  rw [← hparse] at houtcome
  generalize c.parse g limit tokens = result at houtcome
  simp only [hsentence]
  -- in all three outcomes the run is legal, and
  -- from there what was shifted can be completed
  cases houtcome with
  | limit hruns hd hprogress =>
      refine ⟨exists_completion_of_step hg hp' hclosed hruns hd hprogress rfl rfl, ?_⟩
      intro _ state a hlast
      simp [Result.last?, Configuration.record] at hlast
  | accept hruns hd hprogress hn hlabels hend =>
      refine ⟨exists_completion_of_step hg hp' hclosed hruns hd hprogress rfl rfl, ?_⟩
      intro _ state a hlast
      simp [Result.last?, Configuration.record] at hlast
  | @error n steps d k f hruns hd hprogress hn hturn =>
      refine ⟨exists_completion_of_step hg hp' hclosed hruns hd hprogress rfl rfl, ?_⟩
      intro hfree state a hlast
      have hconflicts := h.conflicts_eq_nil hfree
      obtain ⟨-, rfl⟩ : d.state = state ∧ d.lookahead = a := by
        simpa [Result.last?, Configuration.record] using hlast
      obtain ⟨front, hfront, hsymbols⟩ := exists_consumed hruns hprogress
      refine ⟨front, d.rest.tail, by rw [← hd.rest_eq]; exact hfront, ?_, ?_, ?_⟩
      · rw [hsymbols, shifted_append]
        simp [shifted, Step.shifted?, Configuration.record]
      · -- a sentence that goes on with the token would be parsed past this place
        rintro y ⟨hder, hword⟩
        have hbody : (front ++ d.lookahead :: spell y).map Token.symbol
            = front.map Token.symbol ++ d.lookahead.symbol :: y := by
          simp
        rw [← hbody] at hder hword
        exact not_derives_of_error hg hconflicts hruns hd hturn hfront
          (e := Token.endAt 0) rfl (List.append_assoc _ _ _) hword hder
      · rintro hend ⟨hder, hword⟩
        exact not_derives_of_error hg hconflicts hruns hd hturn hfront hend
          (show front ++ [d.lookahead] = front ++ d.lookahead :: [] from rfl) hword hder

/-- In the small grammar the error in `b` is found at once, since no sentence
    begins with it. -/
theorem error_located_sample :
    (sampleCompilation.parse sampleGrammar 4 [⟨"b", [98], ⟨0, 1⟩⟩]).last?.map Simulator.Step.move
        = some (.syntaxError 0 ⟨"b", [98], ⟨0, 1⟩⟩) ∧
      ∀ y, ¬ sampleGrammar.Sentence ("b" :: y) := by
  have hlast : (sampleCompilation.parse sampleGrammar 4
      [⟨"b", [98], ⟨0, 1⟩⟩]).last?.map Simulator.Step.move
        = some (.syntaxError 0 ⟨"b", [98], ⟨0, 1⟩⟩) := by decide +kernel
  obtain ⟨front, behind, -, hshifted, hnot, -⟩ :=
    (compiled_sample.error_located productive_sample 4 [⟨"b", [98], ⟨0, 1⟩⟩]).2
      (by decide +kernel) _ _ hlast
  have hnil : front.map Token.symbol = [] := hshifted.trans (by decide +kernel)
  rw [hnil] at hnot
  exact ⟨hlast, hnot⟩

end ShiftReduce
