import ShiftReduce.Proofs.Parser.Resumption
import ShiftReduce.Proofs.Simulator.Growth
import ShiftReduce.Proofs.Token.Partition

/-! # Exact forests — no parse loses, duplicates or misplaces anything

    The tokens of every input are laid out as growing needs it (`laid_tokenize`):
    the stray ones have no symbol of the grammar, and the end of the input is
    behind them all.  A fresh stack carries no trees.  So every step of a parse,
    those that report an error included, shows an exact forest.  Conflicts in the
    table do not matter, nor does the number of its states. -/

namespace ShiftReduce

/-- The tokens of every input lie in it one behind the other. -/
theorem Lexer.laid_tokenize {terminals : List Symbol} (hunmatched : Symbol.unmatched ∉ terminals)
    (hend : Symbol.endMarker ∉ terminals) (input : Bytes) :
    Laid terminals input (tokenize terminals input) := by
  obtain ⟨body, htokens, hsliced⟩ := exists_sliced_tokenize hunmatched input
  -- a token that is a terminal is not the end of the input
  have hcut : ∀ t ∈ body ++ [Token.endAt input.length], t.symbol ∈ terminals →
      Cut terminals input t := by
    intro t ht hterminal
    rcases List.mem_append.mp ht with ht | ht
    · exact hsliced.cut t ht
    · rw [List.mem_singleton.mp ht] at hterminal
      exact absurd hterminal hend
  rw [htokens]
  refine ⟨?_, ?_, fun t ht hterminal => (hcut t ht hterminal).nonempty, ?_,
    fun t ht hterminal => (hcut t ht hterminal).lexeme,
    fun t ht hterminal => ((hcut t ht hterminal).longest hterminal).1⟩
  · refine List.pairwise_append.mpr ⟨hsliced.ordered, List.pairwise_singleton _ _, ?_⟩
    intro t ht e he
    rw [List.mem_singleton.mp he]
    exact (hsliced.cut t ht).inside
  · intro t ht
    rcases List.mem_append.mp ht with ht | ht
    · exact Nat.le_of_lt (hsliced.cut t ht).nonempty
    · rw [List.mem_singleton.mp ht]
      exact Nat.le_refl _
  · intro t ht
    rcases List.mem_append.mp ht with ht | ht
    · exact (hsliced.cut t ht).inside
    · rw [List.mem_singleton.mp ht]
      exact Nat.le_refl _

open Simulator

/-- Before its first round a parse has no trees, and all tokens are left. -/
theorem Simulator.bears_start (input : Bytes) (body : List Token) (stop : Nat) :
    Bears input (body ++ [Token.endAt stop]) [] []
      (Configuration.start (body ++ [Token.endAt stop]) none) := by
  have hrest : (Configuration.start (body ++ [Token.endAt stop]) none).rest =
      body ++ [Token.endAt stop] :=
    closeTokens_snoc body stop
  refine ⟨rfl, rfl, ⟨Token.endAt stop, ?_, rfl⟩, hrest.symm, Forest.grows_nil _ _⟩
  rw [hrest, List.getLast?_concat]

/-- **Exact forests.**  Let a grammar be assembled, and let any input be parsed with
    its tables and any limit.  At every step the tokens are those consumed and those
    left, and the forest with the pending node is exact for the consumed ones: its
    nodes are numbered in postorder, its leaves stand in the order of the input, each
    of them is empty or shows the stretch of input that it is labelled with, those
    that are not empty are the consumed tokens, and every node spans its leaves. -/
theorem Compilation.forests_exact {g : Grammar} {c : Compilation} {name : String} {start : Symbol}
    {terminals nonterminals : List Symbol} {rules : List (Option Production)}
    (hg : Grammar.assemble name start terminals nonterminals rules = .ok g)
    (hc : Compilation.compile g = .ok c) (hrules : g.size < 2147483646) (limit : Nat)
    (input : Bytes) :
    ∀ st ∈ ((c.parser g limit).parse input none).steps, ∃ consumed,
      Lexer.tokenize g.terminals input = consumed ++ st.rest ∧
        st.forest.Exact input consumed := by
  have hchecked := (Grammar.assemble_checked hg).1
  have hreserved : ∀ s, s.isReserved = true → s ∉ g.terminals := by
    intro s hs hmem
    have hdeclarable := hchecked.declarable s (Or.inl hmem)
    simp [Symbol.isDeclarable, hs] at hdeclarable
  have hunmatched := hreserved Symbol.unmatched rfl
  have hend := hreserved Symbol.endMarker rfl
  -- what is shifted is a declared terminal, so neither
  -- an end marker nor an error token gets a leaf
  have hends : (Table.ofGrammar g.augmented).EndsClosed :=
    (closing_augmented hchecked hrules).no_shift
  have hshifts : ∀ k x l, (Table.ofGrammar g.augmented).action? k x = some (.shift l) →
      x ∈ g.terminals := fun _ _ _ hshift => hends.terminal hshift
  have hlaid := Lexer.laid_tokenize hunmatched hend input
  obtain ⟨body, htokens, -⟩ := Lexer.exists_sliced_tokenize hunmatched input
  rw [Compilation.parser_parse hg hc, htokens]
  rw [htokens] at hlaid
  exact play_exact hlaid (hreserved Symbol.epsilon rfl) hend hshifts
    (bears_start input body input.length) limit limit

/-- The small grammar reads `a` behind a blank: a leaf for the empty word where `a`
    begins, the node above it, a leaf for `a`, and the node above both. -/
theorem Compilation.forests_exact_sample :
    ∃ st, ((sampleCompilation.parser sampleGrammar 4).parse [32, 97] none).steps[3]? = some st ∧
      st.kind = .reduce ∧ (Node.postorderAll st.forest).map Node.span =
        [⟨1, 1⟩, ⟨1, 1⟩, ⟨1, 2⟩, ⟨1, 2⟩] ∧
      ∃ consumed, Lexer.tokenize sampleGrammar.terminals [32, 97] = consumed ++ st.rest ∧
        st.forest.Exact [32, 97] consumed := by
  have hassembled : Grammar.assemble "sample" "S" ["a", "b"] ["S", "N"]
      [some { id := 0, lhs := "S", body := ["N", "a"] }, some { id := 1, lhs := "N", body := [] }]
        = .ok sampleGrammar := rfl
  have hstep : (((sampleCompilation.parser sampleGrammar 4).parse [32, 97] none).steps[3]?.map
      fun st => (st.kind, (Node.postorderAll st.forest).map Node.span)) =
        some (.reduce, [⟨1, 1⟩, ⟨1, 1⟩, ⟨1, 2⟩, ⟨1, 2⟩]) := by
    decide +kernel
  obtain ⟨st, hst, hboth⟩ := Option.map_eq_some_iff.mp hstep
  obtain ⟨hkind, hspans⟩ := Prod.mk.inj hboth
  exact ⟨st, hst, hkind, hspans, forests_exact hassembled compiled_sample.compiled (by decide) 4
    [32, 97] st (List.mem_of_getElem? hst)⟩

end ShiftReduce
