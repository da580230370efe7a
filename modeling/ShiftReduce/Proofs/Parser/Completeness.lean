import ShiftReduce.Proofs.Parser.Outcome

/-! # Completeness — a table without conflicts finds every derivation tree

    The parse of the word of a derivation tree takes one round for every symbol
    of the word, one for every interior node and one to accept; with fewer
    rounds it cannot accept.  A reduction records two steps.  Since the run
    depends on the word only, a word has one derivation tree at most. -/

namespace ShiftReduce

open Simulator

/-- Tokens that spell a word and an end marker are closed. -/
theorem exists_front {tokens : List Token} {w : List Symbol}
    (h : tokens.map Token.symbol = w ++ [Symbol.endMarker]) :
    ∃ front e, closeTokens tokens = front ++ [e] ∧ front.map Token.symbol = w ∧
      e.symbol = Symbol.endMarker := by
  obtain ⟨front, ends, rfl, hfront, hends⟩ := List.map_eq_append_iff.mp h
  obtain ⟨e, rfl, he⟩ := List.map_eq_singleton_iff.mp hends
  refine ⟨front, e, ?_, hfront, he⟩
  have hend : e.isEnd = true := by simp [Token.isEnd, he]
  rw [closeTokens, List.getLast?_concat]
  exact if_pos hend

/-- **Completeness.**  Without conflicts, the word of a derivation tree of the
    start symbol is accepted if and only if there are rounds enough for its
    symbols, for the interior nodes of the tree and for acceptance.  The trace
    has a step for each of them and one more for each interior node, the root
    is the tree up to numbers, values and spans, and there is no other tree for
    the same word. -/
theorem Compiled.accepted_iff_of_derivation {g : Grammar} {c : Compilation} (h : Compiled g c)
    (hfree : c.table.hasConflicts = false) {t : Node} (ht : t.IsDerivation c.grammar)
    (hlabel : t.label = g.start) (tokens : List Token)
    (htokens : tokens.map Token.symbol = t.word ++ [Symbol.endMarker]) (limit : Nat) :
    ((c.parse g limit tokens).accepted = true ↔ t.word.length + t.interiors + 1 ≤ limit) ∧
      ((c.parse g limit tokens).accepted = true →
        (c.parse g limit tokens).steps.length = t.word.length + 2 * t.interiors + 1 ∧
        ∃ n, (c.parse g limit tokens).root? = some n ∧ n.shape = t.shape) ∧
      ∀ t' : Node, t'.IsDerivation c.grammar → t'.label = g.start → t'.word = t.word →
        t'.shape = t.shape := by
  have hg := h.tabular
  have hconflicts := h.conflicts_eq_nil hfree
  rw [h.grammar_eq] at ht ⊢
  obtain ⟨front, e, hclose, hfront, he⟩ := exists_front htokens
  obtain ⟨last, hparse⟩ := h.parse_eq limit tokens
  rw [hclose] at hparse
  obtain ⟨steps, d, n, hruns, hlen, hforest, hshape, hend⟩ :=
    exists_accepting_run hg hconflicts ht hlabel hfront he last
  have henough : t.word.length + t.interiors + 1 ≤ limit → c.parse g limit tokens
      = { steps := steps ++ [d.record .accept none], accepted := true, forest := [n] } := by
    intro hlimit
    rw [hparse, ← hforest]
    exact play_of_ends hruns hend limit (by omega)
  -- with fewer rounds the play ends before the run that the tree directs
  have hneeded : (c.parse g limit tokens).accepted = true →
      t.word.length + t.interiors + 1 ≤ limit := by
    intro haccepted
    rw [hparse] at haccepted
    rcases play_cases (g := g.augmented) (t := Table.ofGrammar g.augmented) limit limit
        (.fresh (front ++ [e]) last) [] with
      ⟨_, _, _, hres⟩ | ⟨m, _, _, _, _, _, hm, hruns', hend', _⟩
    · rw [hres] at haccepted
      exact nomatch haccepted
    · have hle := hruns.le_of_ends hruns' hend'
      omega
  refine ⟨⟨hneeded, fun hlimit => by rw [henough hlimit]⟩, ?_, ?_⟩
  · intro haccepted
    rw [henough (hneeded haccepted)]
    exact ⟨by rw [List.length_append, hlen]; rfl, n, rfl, hshape⟩
  · intro t' ht' hlabel' hword
    -- both trees direct a run on the same tokens
    obtain ⟨_, d', n', hruns', -, hforest', hshape', hend'⟩ :=
      exists_accepting_run hg hconflicts ht' hlabel' (hfront.trans hword.symm) he last
    obtain rfl := hruns.eq_of_ends hruns' hend hend'
    obtain rfl : n = n' := List.head_eq_of_cons_eq (hforest.symm.trans hforest')
    exact hshape'.symm.trans hshape

/-- The derivation tree of `a` in the small grammar. -/
def sampleTree : Node :=
  .interior 0 "S" 1 Span.zero
    [.interior 0 "N" 2 Span.zero [.leaf 0 Symbol.epsilon none Span.zero],
      .leaf 0 "a" none Span.zero]

/-- The example tree follows the rules. -/
theorem isDerivation_sampleTree : sampleTree.IsDerivation sampleCompilation.grammar := by
  refine .rule 0 Span.zero _ 1 { id := 1, lhs := "S", body := ["N", "a"] } rfl (by simp) rfl ?_
  intro n hn
  simp only [List.mem_cons, List.not_mem_nil, or_false] at hn
  rcases hn with rfl | rfl
  · exact .empty 0 0 Span.zero Span.zero none 2 { id := 2, lhs := "N", body := [] } rfl rfl
  · exact .leaf 0 "a" none Span.zero (by decide)

/-- The small grammar accepts `a` with four rounds and not with three. -/
theorem accepted_iff_of_derivation_sample :
    (sampleCompilation.parse sampleGrammar 4
        [⟨"a", [97], ⟨0, 1⟩⟩, Token.endAt 1]).accepted = true ∧
      ¬ (sampleCompilation.parse sampleGrammar 3
        [⟨"a", [97], ⟨0, 1⟩⟩, Token.endAt 1]).accepted = true := by
  have hall := compiled_sample.accepted_iff_of_derivation (by decide +kernel)
    isDerivation_sampleTree rfl [⟨"a", [97], ⟨0, 1⟩⟩, Token.endAt 1] (by decide +kernel)
  exact ⟨(hall 4).1.mpr (by decide +kernel), mt (hall 3).1.mp (by decide +kernel)⟩

end ShiftReduce
