import ShiftReduce.Proofs.Parser.Outcome

/-! # Soundness — accepted inputs come with a derivation tree

    Whatever conflicts the table has, a parse that accepts has one tree on its
    stack.  It is a derivation tree of the start symbol, and its word is the
    input up to the first end marker. -/

namespace ShiftReduce

namespace Simulator

/-- Closing adds nothing before the first end marker. -/
theorem takeWhile_closeTokens (tokens : List Token) :
    (closeTokens tokens).takeWhile (fun t => !t.isEnd) = tokens.takeWhile fun t => !t.isEnd := by
  rcases closeTokens_cases tokens with ⟨heq, -⟩ | ⟨position, heq⟩
  · rw [heq]
  · have hmark : [Token.endAt position].takeWhile (fun t => !t.isEnd) = [] := rfl
    rw [heq, List.takeWhile_append, hmark, List.append_nil]
    by_cases hall : (tokens.takeWhile fun t => !t.isEnd).length = tokens.length
    · -- there is no end marker among the tokens
      have hpre := List.takeWhile_prefix (l := tokens) fun t => !t.isEnd
      rw [if_pos hall]
      exact (hpre.eq_of_length hall).symm
    · rw [if_neg hall]

/-- A word of terminals before an end marker is what stands before the first
    one. -/
theorem word_eq_takeWhile {g : Grammar} (hg : g.WellFormed) {w : List Symbol} (hw : g.IsWord w)
    {tokens rest : List Token} {e : Token} (he : e.symbol = Symbol.endMarker)
    (hinput : w ++ (e :: rest).map Token.symbol = tokens.map Token.symbol) :
    w = (tokens.takeWhile fun t => !t.isEnd).map Token.symbol := by
  obtain ⟨front, behind, rfl, rfl, hbehind⟩ := List.map_eq_append_iff.mp hinput.symm
  obtain ⟨e', behind, rfl, he', -⟩ := List.map_eq_cons_iff.mp hbehind
  have hfront : ∀ t ∈ front, (!t.isEnd) = true := by
    intro t ht
    have hmem := hw t.symbol (List.mem_map_of_mem ht)
    simpa [Token.isEnd] using (hg.ne_of_mem (Or.inl hmem)).2.1
  have hend : ¬ (!e'.isEnd) = true := by simp [Token.isEnd, he'.trans he]
  rw [List.takeWhile_append_of_pos hfront, List.takeWhile_cons_of_neg (p := fun t : Token => !t.isEnd) hend,
    List.append_nil]

end Simulator

open Simulator in
/-- **Soundness.**  If a parse accepts, its root is a derivation tree of the
    start symbol, and the word of the tree, which is a sentence, has the symbols
    of the tokens before the first end marker. -/
theorem Compiled.derivation_of_accepted {g : Grammar} {c : Compilation} (h : Compiled g c)
    (limit : Nat) (tokens : List Token) (haccepted : (c.parse g limit tokens).accepted = true) :
    ∃ n, (c.parse g limit tokens).root? = some n ∧ n.IsDerivation c.grammar ∧
      n.label = c.grammar.baseStart ∧
      n.word = (tokens.takeWhile fun t => !t.isEnd).map Token.symbol ∧
      g.Sentence ((tokens.takeWhile fun t => !t.isEnd).map Token.symbol) := by
  have hg := h.tabular
  obtain ⟨last, hparse⟩ := h.parse_eq limit tokens
  have houtcome := play_outcome hg limit last (closeTokens_closed tokens)
  rw [← hparse] at houtcome
  rw [h.grammar_eq]
  generalize c.parse g limit tokens = result at haccepted houtcome
  -- only the accepting outcome has the verdict that is given
  cases houtcome with
  | limit hruns hd hprogress => exact nomatch haccepted
  | error hruns hd hprogress hn hturn => exact nomatch haccepted
  | @accept n steps d k f hruns hd hprogress hn hlabels hend =>
      obtain ⟨root, rfl, hroot⟩ := List.map_eq_singleton_iff.mp hlabels
      have hder : root.IsDerivation g.augmented := hd.stacked.isDerivation root List.mem_cons_self
      obtain ⟨hderives, hword⟩ := hder.derives hg.toWellFormed
      -- nothing is lost: what the tree spells and what is left make up the input
      have hinput : root.word ++ (d.lookahead :: d.rest.tail).map Token.symbol
          = (closeTokens tokens).map Token.symbol := by
        have hall := hprogress.of_fresh.2.1
        rw [hd.rest_eq] at hall
        simpa using hall
      have hyield := word_eq_takeWhile hg.toWellFormed hword hend hinput
      rw [takeWhile_closeTokens] at hyield
      rw [hroot] at hderives
      refine ⟨root, rfl, hder, hroot, hyield, ?_⟩
      rw [← hyield]
      exact h.wellFormed.sentence_iff_augmented.mpr ⟨hderives, hword⟩

/-- The small grammar accepts `a`. -/
theorem derivation_of_accepted_sample :
    ∃ n, (sampleCompilation.parse sampleGrammar 4 [⟨"a", [97], ⟨0, 1⟩⟩]).root? = some n ∧
      n.IsDerivation sampleCompilation.grammar ∧ n.label = sampleCompilation.grammar.baseStart ∧
      n.word = ["a"] ∧ sampleGrammar.Sentence ["a"] :=
  compiled_sample.derivation_of_accepted 4 [⟨"a", [97], ⟨0, 1⟩⟩] (by decide +kernel)

end ShiftReduce
