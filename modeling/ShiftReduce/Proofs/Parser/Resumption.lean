import ShiftReduce.Proofs.Parser.Outcome
import ShiftReduce.Proofs.Simulator.Resume
import ShiftReduce.Proofs.Table.EndColumn

/-! # Resumption — going on from recorded text is like not having stopped

    Behind a shift or a goto, a trace has all that is needed to go on: the
    checkpoint and the text of the remaining input.  The text is cut into the
    same tokens at other places, since the tokens of an input are firm; and the
    checkpoint restores the configuration up to trees.  So the resumed parse and
    the rest of the parse that was left are in lockstep.  Conflicts in the table
    do not matter, nor do shared symbols of the alphabets or the number of
    states. -/

namespace ShiftReduce

namespace Simulator

/-- What two steps have in common that differ in places and below the roots of
    their trees only. -/
structure Step.Agrees (s s' : Step) : Prop where
  index : s.index = s'.index
  kind : s.kind = s'.kind
  action : s.move.action? = s'.move.action?
  states : s.states = s'.states
  symbols : s.symbols = s'.symbols
  input : s.input = s'.input
  label : s.move.label = s'.move.label
  explanation : s.move.explanation = s'.move.explanation
  labels : s.forest.labels = s'.forest.labels
  token : s.token.symbol = s'.token.symbol ∧ s.token.lexeme = s'.token.lexeme

/-- Steps that look the same agree in all that is listed. -/
theorem Step.Agrees.of_sight {s s' : Step} (h : s.sight = s'.sight) : s.Agrees s' := by
  have hmove := Step.unplaced_eq h
  have htoken : s.token.face = s'.token.face := congrArg Sight.token h
  exact
    { index := congrArg Sight.index h
      kind := Step.kind_eq h
      action := by rw [← Move.action?_unplaced, hmove, Move.action?_unplaced]
      states := Step.states_eq h
      symbols := Step.symbols_eq h
      input := Step.input_eq h
      label := by rw [← Move.label_unplaced, hmove, Move.label_unplaced]
      explanation := by rw [← Move.explanation_unplaced, hmove, Move.explanation_unplaced]
      labels := Step.labels_eq h
      token := ⟨Token.symbol_eq htoken, Token.lexeme_eq htoken⟩ }

/-! ## The text of the remaining input -/

/-- Tokens with an end marker at the end are closed already. -/
theorem closeTokens_snoc (body : List Token) (stop : Nat) :
    closeTokens (body ++ [Token.endAt stop]) = body ++ [Token.endAt stop] := by
  rw [closeTokens, List.getLast?_concat]
  rfl

/-- What is left of an input that is closed by an end marker is closed by it,
    unless nothing is left. -/
theorem exists_body_of_suffix {body rest : List Token} {e : Token}
    (h : rest <:+ body ++ [e]) (hne : ∃ e', rest.getLast? = some e' ∧ e'.symbol = Symbol.endMarker) :
    ∃ body', rest = body' ++ [e] ∧ body' <:+ body := by
  obtain ⟨e', hlast, -⟩ := hne
  obtain ⟨body', rfl⟩ := List.getLast?_eq_some_iff.mp hlast
  obtain ⟨gone, hgone⟩ := h
  rw [← List.append_assoc] at hgone
  obtain ⟨hbody, hend⟩ := List.append_inj' hgone rfl
  obtain rfl := List.head_eq_of_cons_eq hend
  exact ⟨body', rfl, gone, hbody⟩

/-- The remaining input is the lexemes with blanks between them. -/
theorem remainingInput_eq {terminals : List Symbol} {st : Step} {body : List Token} {stop : Nat}
    (hends : Symbol.endMarker ∉ terminals) (hrest : st.rest = body ++ [Token.endAt stop])
    (hfirm : ∀ t ∈ body, Lexer.Firm terminals t) :
    st.remainingInput = Bytes.joinBlank (body.map Token.lexeme) := by
  have hshown : ∀ t ∈ body, t.shown = t.lexeme := by
    intro t ht
    have hnot : ¬ t.isEnd = true := by
      rw [Token.isEnd, beq_iff_eq]
      intro hend
      rcases (hfirm t ht).symbol with hmem | hmem
      · rw [hend] at hmem
        exact hends hmem
      · rw [hend] at hmem
        exact absurd hmem (by decide)
    rw [Token.shown, if_neg hnot]
  have hinput : st.input = body.map Token.lexeme ++ [Bytes.ofText Symbol.endMarker] := by
    rw [Step.input, hrest, List.map_append, List.map_congr_left hshown]
    rfl
  rw [Step.remainingInput, hinput, List.getLast?_concat, if_pos rfl, List.dropLast_concat]

end Simulator

/-! ## Resumed parses -/

open Simulator

/-- The parser with a grammar and the table of a compilation. -/
def Compilation.parser (c : Compilation) (g : Grammar) (limit : Nat) : Simulator :=
  Simulator.make (some g) (some c.table) limit

section Resumed

variable {g : Grammar} {c : Compilation} {name : String} {start : Symbol}
  {terminals nonterminals : List Symbol} {rules : List (Option Production)}

/-- To parse with a compilation is to play its table on the tokens of the input. -/
theorem Compilation.parser_parse (hg : Grammar.assemble name start terminals nonterminals rules = .ok g)
    (hc : Compilation.compile g = .ok c) (limit : Nat) (input : Bytes) (resume : Option Checkpoint) :
    (c.parser g limit).parse input resume
      = play g.augmented (Table.ofGrammar g.augmented) limit limit
        (Configuration.start (Lexer.tokenize g.terminals input) resume) [] := by
  have haugmented := Grammar.ensureAugmented_of_assemble hg
  rw [← Compilation.parseTokens_eq haugmented hc, Compilation.parser, Simulator.parse,
    Simulator.make, Option.map_some, haugmented]
  rfl

/-- The end marker is no symbol of the grammar, so that it is neither shifted nor
    reduced to. -/
theorem closing_augmented (hg : g.Checked) (hrules : g.size < 2147483646) :
    Closing g.augmented (Table.ofGrammar g.augmented) := by
  have hsize : g.augmented.size = g.size + 1 := by
    simp [Grammar.size, Grammar.augmented]
  have hchecked : g.augmented.Checked := hg.augmented
  refine ⟨Table.build_endsClosed hchecked ?_ _, ?_⟩
  · show g.augmented.size ≤ 2147483646
    omega
  · intro r hr
    exact (hchecked.ne_of_mem (Or.inr (hchecked.lhs_mem r hr))).2.1

/-- **Resumption.**  Let a grammar be assembled with terminals that contain no
    blanks, and let the parse of some input end before the limit.  Parsing the
    remaining input behind a shift or a goto, with the checkpoint there, gives
    exactly the steps that follow, up to places and trees, and accepts if and
    only if the whole parse does. -/
theorem Compilation.resumed_parse
    (hg : Grammar.assemble name start terminals nonterminals rules = .ok g)
    (hc : Compilation.compile g = .ok c) (hrules : g.size < 2147483646)
    (hblanks : Lexer.Unspaced g.terminals) (limit : Nat) (input : Bytes)
    (hlimit : ((c.parser g limit).parse input none).lastLabel ≠ "iteration limit") {k : Nat}
    {st : Step} (hst : ((c.parser g limit).parse input none).steps[k]? = some st)
    (hkind : st.kind.isResumable = true) :
    ((c.parser g limit).parse st.remainingInput (some st.checkpoint)).steps.length
        = ((c.parser g limit).parse input none).steps.length - k - 1 ∧
      (∀ (j : Nat) (s s' : Step),
        ((c.parser g limit).parse st.remainingInput (some st.checkpoint)).steps[j]? = some s →
        ((c.parser g limit).parse input none).steps[k + 1 + j]? = some s' → s.Agrees s') ∧
      ((c.parser g limit).parse st.remainingInput (some st.checkpoint)).accepted
        = ((c.parser g limit).parse input none).accepted := by
  have hchecked := (Grammar.assemble_checked hg).1
  have hends : Symbol.endMarker ∉ g.terminals :=
    fun hmem => (hchecked.ne_of_mem (Or.inl hmem)).2.1 rfl
  have hclosing := closing_augmented hchecked hrules
  obtain ⟨body, stop, htokens, hfirm⟩ := Lexer.tokenize_eq hblanks input
  rw [Compilation.parser_parse hg hc, htokens] at hlimit hst
  rw [Compilation.parser_parse hg hc, Compilation.parser_parse hg hc, htokens]
  -- the parse begins with a fresh stack and the tokens of the input
  have hfresh : Configuration.start (body ++ [Token.endAt stop]) none
      = { stack := freshStack, rest := body ++ [Token.endAt stop], last := Token.endAt stop
          index := 0, builder := {} } := by
    rw [Configuration.start, closeTokens_snoc]
    simp
  rw [hfresh] at hlimit hst ⊢
  obtain ⟨e, hleads, he, hlast, hsuffix, hsteps, haccepted⟩ := play_behind hclosing
    ⟨grown_fresh, Token.endAt stop, List.getLast?_concat, rfl⟩ hlimit hst hkind
  obtain ⟨body', hrest, hbody'⟩ := exists_body_of_suffix hsuffix he.closed
  have hfirm' : ∀ t ∈ body', Lexer.Firm g.terminals t := fun t ht => hfirm t (hbody'.subset ht)
  have hremaining := remainingInput_eq hends (hleads.rest.symm.trans hrest) hfirm'
  -- the remaining input is cut into the tokens that were left
  obtain ⟨again, stop', hagain, -⟩ := Lexer.tokenize_eq hblanks st.remainingInput
  have hface := Lexer.face_tokenize hblanks hfirm'
  rw [← hremaining, hagain] at hface
  have hsame : Same (Configuration.start (Lexer.tokenize g.terminals st.remainingInput)
      (some st.checkpoint)) e := by
    rw [hagain]
    refine start_same hleads he.grown (again ++ [Token.endAt stop']) ?_ ?_
    · rw [closeTokens_snoc, hface, hrest, List.map_append]
      rfl
    · rw [closeTokens_snoc, List.getLastD_concat, hlast]
      rfl
  obtain ⟨hsights, haccepted'⟩ := hsame.play g.augmented (Table.ofGrammar g.augmented) limit
  rw [hsteps] at hsights
  refine ⟨?_, ?_, haccepted'.trans haccepted⟩
  · have hlength := congrArg List.length hsights
    rw [List.length_map, List.length_map, List.length_drop] at hlength
    rw [hlength, Nat.sub_sub]
  · intro j s s' hs hs'
    have hsight := congrArg (fun sights => sights[j]?) hsights
    rw [List.getElem?_map, List.getElem?_map, hs, List.getElem?_drop, hs'] at hsight
    exact .of_sight (Option.some.inj hsight)

end Resumed

/-- An input of the small grammar with a literal end marker and a stray byte in
    it is left behind the goto over the empty rule. -/
theorem resumed_parse_sample :
    ∃ st, ((sampleCompilation.parser sampleGrammar 4).parse [97, 36, 255] none).steps[1]? = some st ∧
      st.kind = .goTo ∧ st.remainingInput = [97, 32, 36, 32, 255] ∧
      ((sampleCompilation.parser sampleGrammar 4).parse st.remainingInput
        (some st.checkpoint)).steps.length = 2 ∧
      ∀ (j : Nat) (s s' : Step),
        ((sampleCompilation.parser sampleGrammar 4).parse st.remainingInput
          (some st.checkpoint)).steps[j]? = some s →
        ((sampleCompilation.parser sampleGrammar 4).parse [97, 36, 255] none).steps[1 + 1 + j]?
          = some s' → s.Agrees s' := by
  have hassembled : Grammar.assemble "sample" "S" ["a", "b"] ["S", "N"]
      [some { id := 0, lhs := "S", body := ["N", "a"] }, some { id := 1, lhs := "N", body := [] }]
        = .ok sampleGrammar := rfl
  have hblanks : Lexer.Unspaced sampleGrammar.terminals := by
    show ∀ t ∈ sampleGrammar.terminals, ∀ b ∈ Bytes.ofText t, Lexer.isSpace b = false
    decide +kernel
  -- three facts about this run are computed: its
  -- length, and what step 1 is and leaves to be read
  have hlength : ((sampleCompilation.parser sampleGrammar 4).parse [97, 36, 255] none).steps.length
      = 4 := by decide +kernel
  have hstep : (((sampleCompilation.parser sampleGrammar 4).parse [97, 36, 255] none).steps[1]?.map
      fun st => (st.kind, st.remainingInput)) = some (.goTo, [97, 32, 36, 32, 255]) := by
    decide +kernel
  obtain ⟨st, hst, hboth⟩ := Option.map_eq_some_iff.mp hstep
  obtain ⟨hkind, hremaining⟩ := Prod.mk.inj hboth
  obtain ⟨hcount, hagrees, -⟩ := Compilation.resumed_parse hassembled compiled_sample.compiled
    (by decide) hblanks 4 [97, 36, 255] (by decide +kernel) hst (by rw [hkind]; rfl)
  rw [hlength] at hcount
  exact ⟨st, hst, hkind, hremaining, hcount, hagrees⟩

end ShiftReduce
