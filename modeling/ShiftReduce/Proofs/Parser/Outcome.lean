import ShiftReduce.Compilation
import ShiftReduce.Proofs.Simulator.TreeRuns

/-! # Outcomes — the three ways in which a parse can end

    A parse with the compilation of a grammar reaches the limit of rounds,
    reports a syntax error or accepts with one tree on the stack; there are no
    mismatches between table, grammar and stack.  If the table has no conflicts,
    then the parse of the word of a derivation tree goes on until it accepts,
    and takes a round for every symbol and for every interior node.  Whatever
    is on the stack can be completed to a sentence if every nonterminal derives
    a word. -/

namespace ShiftReduce

/-- A grammar that was assembled from checked parts with disjoint alphabets,
    together with its compilation, and few enough rules and states for the cells
    of a table. -/
structure Compiled (g : Grammar) (c : Compilation) : Prop where
  assembled : ∃ name start terminals nonterminals rules,
    Grammar.assemble name start terminals nonterminals rules = .ok g
  disjoint : ∀ s ∈ g.terminals, s ∉ g.nonterminals
  compiled : Compilation.compile g = .ok c
  rules_fit : g.size < 2147483646
  states_fit : c.automaton.size < 2147483646

namespace Compilation

/-- The result of parsing tokens afresh with a grammar and the table of a
    compilation. -/
def parse (c : Compilation) (g : Grammar) (limit : Nat) (tokens : List Token) :
    Simulator.Result :=
  (Simulator.make (some g) (some c.table) limit).parseTokens tokens none

variable {g : Grammar} {c : Compilation}

/-- What is compiled is made of the analysis of the augmented grammar. -/
theorem eq_ofAnalysis (hg : g.ensureAugmented = .ok g.augmented) (hc : compile g = .ok c) :
    c = ofAnalysis (Analysis.ofGrammar g.augmented) := by
  have hcompile : compile g = .ok (ofAnalysis (Analysis.ofGrammar g.augmented)) := by
    rw [compile, Analysis.make, hg]
    rfl
  exact Except.ok.inj (hc.symm.trans hcompile)

/-- A parse is a play with the augmented grammar and its table. -/
theorem parseTokens_eq (hg : g.ensureAugmented = .ok g.augmented) (hc : compile g = .ok c)
    (limit : Nat) (tokens : List Token) (resume : Option Simulator.Checkpoint) :
    (Simulator.make (some g) (some c.table) limit).parseTokens tokens resume
      = Simulator.play g.augmented (Table.ofGrammar g.augmented) limit limit
        (Simulator.Configuration.start tokens resume) [] := by
  rw [Simulator.make, Option.map_some, hg, eq_ofAnalysis hg hc]
  rfl

end Compilation

namespace Compiled

variable {g : Grammar} {c : Compilation}

/-- A grammar that was compiled is well-formed. -/
theorem wellFormed (h : Compiled g c) : g.WellFormed := by
  obtain ⟨name, start, terminals, nonterminals, rules, hg⟩ := h.assembled
  exact (Grammar.assemble_wellFormed hg h.disjoint).1

/-- It is augmented exactly once. -/
theorem ensureAugmented_eq (h : Compiled g c) : g.ensureAugmented = .ok g.augmented := by
  obtain ⟨name, start, terminals, nonterminals, rules, hg⟩ := h.assembled
  exact Grammar.ensureAugmented_of_assemble hg

/-- The compilation is made of the analysis of the augmented grammar. -/
theorem eq_ofAnalysis (h : Compiled g c) :
    c = Compilation.ofAnalysis (Analysis.ofGrammar g.augmented) :=
  Compilation.eq_ofAnalysis h.ensureAugmented_eq h.compiled

theorem grammar_eq (h : Compiled g c) : c.grammar = g.augmented := by
  rw [h.eq_ofAnalysis]
  rfl

theorem automaton_eq (h : Compiled g c) : c.automaton = Automaton.build g.augmented := by
  rw [h.eq_ofAnalysis]
  rfl

theorem table_eq (h : Compiled g c) : c.table = Table.ofGrammar g.augmented := by
  rw [h.eq_ofAnalysis]
  rfl

/-- The augmented grammar meets all conditions under which its table is
    faithful. -/
theorem tabular (h : Compiled g c) : Table.Tabular g.augmented g.start := by
  have hrules := h.rules_fit
  have hstates : (Automaton.build g.augmented).size < 2147483646 := by
    rw [← h.automaton_eq]
    exact h.states_fit
  have hsize : g.augmented.size = g.size + 1 := by
    simp [Grammar.size, Grammar.augmented]
  have hrooted := h.wellFormed.rooted_augmented
  exact
    { hrooted with
      rule_zero := by rw [hrooted.rule?_zero]; rfl
      bounded := Or.inl (by omega)
      rules_fit := by omega
      cells_fit := by omega }

/-- A parse that begins afresh has nothing but the bottom of the stack. -/
theorem parse_eq (h : Compiled g c) (limit : Nat) (tokens : List Token) :
    ∃ last, c.parse g limit tokens
      = Simulator.play g.augmented (Table.ofGrammar g.augmented) limit limit
        (Simulator.Configuration.fresh (Simulator.closeTokens tokens) last) [] := by
  refine ⟨(Simulator.closeTokens tokens).getLastD (Token.endAt 0), ?_⟩
  rw [Compilation.parse, Compilation.parseTokens_eq h.ensureAugmented_eq h.compiled]
  rfl

/-- A table that reports no conflict has none. -/
theorem conflicts_eq_nil (h : Compiled g c) (hfree : c.table.hasConflicts = false) :
    (Table.ofGrammar g.augmented).conflicts = [] := by
  rw [h.table_eq] at hfree
  simpa [Table.hasConflicts] using hfree

end Compiled

/-- A small grammar with an empty rule and a terminal that no rule uses. -/
def sampleGrammar : Grammar :=
  { name := "sample", start := "S", terminals := ["a", "b"], nonterminals := ["S", "N"]
    rules := [{ id := 0, lhs := "S", body := ["N", "a"] }, { id := 1, lhs := "N", body := [] }] }

/-- The compilation of the small grammar. -/
def sampleCompilation : Compilation :=
  Compilation.ofAnalysis (Analysis.ofGrammar sampleGrammar.augmented)

/-- In the example every nonterminal derives a word. -/
theorem productive_sample : sampleGrammar.Productive := by
  have hempty : sampleGrammar.Derives ["N"] [] :=
    Grammar.Derives.of_rule (r := { id := 1, lhs := "N", body := [] }) (by decide)
  have hstart : sampleGrammar.Derives ["S"] ["N", "a"] :=
    Grammar.Derives.of_rule (r := { id := 0, lhs := "S", body := ["N", "a"] }) (by decide)
  intro n hn
  rcases List.mem_pair.mp hn with rfl | rfl
  · exact ⟨["a"], hstart.trans (hempty.inside [] ["a"]), fun x hx => by simp_all [sampleGrammar]⟩
  · exact ⟨[], hempty, fun x hx => nomatch hx⟩

/-- The example is compiled. -/
theorem compiled_sample : Compiled sampleGrammar sampleCompilation where
  assembled := ⟨"sample", "S", ["a", "b"], ["S", "N"],
    [some { id := 0, lhs := "S", body := ["N", "a"] }, some { id := 1, lhs := "N", body := [] }],
    rfl⟩
  disjoint := by decide
  compiled := rfl
  rules_fit := by decide
  states_fit := by decide +kernel

namespace Simulator

variable {g : Grammar} {s : Symbol}

/-- How a play from a fresh configuration ends: what led to the last
    configuration, and what the last round adds. -/
inductive Outcome (g : Grammar) (s : Symbol) (limit : Nat) (rest : List Token) (last : Token) :
    Result → Prop where
  | limit {steps : List Step} {d : Configuration} {k : Nat} {f : Forest}
      (hruns : Runs g (Table.ofGrammar g) limit (.fresh rest last) steps d) (hd : Legal g d k f)
      (hprogress : Progress (.fresh rest last) [] limit steps d f) :
      Outcome g s limit rest last
        { steps := steps ++ [d.record (.fault (.iterationLimit limit)) none]
          accepted := false
          forest := f }
  | error {n : Nat} {steps : List Step} {d : Configuration} {k : Nat} {f : Forest}
      (hruns : Runs g (Table.ofGrammar g) n (.fresh rest last) steps d) (hd : Legal g d k f)
      (hprogress : Progress (.fresh rest last) [] n steps d f) (hn : n < limit)
      (hturn : turn g (Table.ofGrammar g) d = d.stop (.syntaxError d.state d.lookahead) false) :
      Outcome g s limit rest last
        { steps := steps ++ [d.record (.syntaxError d.state d.lookahead) none]
          accepted := false
          forest := f }
  | accept {n : Nat} {steps : List Step} {d : Configuration} {k : Nat} {f : Forest}
      (hruns : Runs g (Table.ofGrammar g) n (.fresh rest last) steps d) (hd : Legal g d k f)
      (hprogress : Progress (.fresh rest last) [] n steps d f) (hn : n < limit)
      (hlabels : f.labels = [s]) (hend : d.lookahead.symbol = Symbol.endMarker) :
      Outcome g s limit rest last
        { steps := steps ++ [d.record .accept none], accepted := true, forest := f }

/-- A play ends in acceptance with a derivation tree, in an error, or at the limit of
    rounds. -/
theorem play_outcome (h : Table.Tabular g s) (limit : Nat) {rest : List Token} (last : Token)
    (hclosed : ∃ e, rest.getLast? = some e ∧ e.symbol = Symbol.endMarker) :
    Outcome g s limit rest last
      (play g (Table.ofGrammar g) limit limit (.fresh rest last) []) := by
  have hfresh := legal_fresh g last hclosed
  rcases play_cases (g := g) (t := Table.ofGrammar g) limit limit (.fresh rest last) [] with
    ⟨steps, d, hruns, hres⟩ | ⟨n, steps, d, later, accepted, final, hn, hruns, hend, hres⟩
  · obtain ⟨k, f, hd, hprogress⟩ := hfresh.runs h hruns
    rw [hres, hd.forest_eq]
    exact .limit hruns hd hprogress
  · obtain ⟨k, f, hd, hprogress⟩ := hfresh.runs h hruns
    -- a round that ends the run is an error or an acceptance, by its effect
    have heffect := turn_effect h hd
    rw [hres]
    generalize hturn : turn g (Table.ofGrammar g) d = round at hend heffect
    subst hend
    cases heffect with
    | error hnone =>
        rw [hd.forest_eq]
        exact .error hruns hd hprogress hn hturn
    | accept hlabels hmark =>
        rw [hd.forest_eq]
        exact .accept hruns hd hprogress hn hlabels hmark

/-- Without conflicts, the word of a derivation tree of the start symbol leads to
    acceptance, and the tree is rebuilt. -/
theorem exists_accepting_run (h : Table.Tabular g s) (hfree : (Table.ofGrammar g).conflicts = [])
    {t : Node} (ht : t.IsDerivation g) (hlabel : t.label = s) {front : List Token} {e : Token}
    (hfront : front.map Token.symbol = t.word) (he : e.symbol = Symbol.endMarker) (last : Token) :
    ∃ steps d t', Runs g (Table.ofGrammar g) (t.word.length + t.interiors)
        (.fresh (front ++ [e]) last) steps d ∧
      steps.length = t.word.length + 2 * t.interiors ∧ d.forest = [t'] ∧ t'.shape = t.shape ∧
      turn g (Table.ofGrammar g) d = d.stop .accept true := by
  have hfresh : Legal g (.fresh (front ++ [e]) last) 0 [] :=
    legal_fresh g last ⟨e, by simp, he⟩
  have hnext : Item.start.next? g = some s := Item.next?_of_rule h.rule?_zero 0
  obtain ⟨k, l, hk, hgoto⟩ := h.exists_goto .start hnext
  obtain rfl : 0 = k := Option.some.inj hk
  have hwalk : (Automaton.build g).walk? 0 (Forest.labels [t]) = some l := by
    rw [Forest.labels_cons, hlabel, Forest.labels_nil, Automaton.walk?, hgoto]
    rfl
  obtain ⟨steps, d, F, hruns, hlen, hd, hshapes, hrest⟩ :=
    retraces_tree h hfree ht (.fresh (front ++ [e]) last) 0 l [] [] front [e] hfresh hwalk
      (by simpa [hlabel] using Grammar.Derives.refl [s]) (fun x hx => absurd hx List.not_mem_nil) rfl
      (by simpa using hfront) (by simp [he])
  obtain ⟨t', rfl, hshape⟩ := List.map_eq_singleton_iff.mp hshapes
  -- the item of rule 0 has moved over its only symbol
  have haction : (Table.ofGrammar g).action? d.state d.lookahead.symbol = some .accept := by
    obtain ⟨st, hst, -⟩ := h.exists_valid hd.stacked.walk
    have hvalid := Item.Valid.shift .start hnext
    have hlabels : Forest.labels ([] ++ [t']) = [] ++ [s] := by
      have hsame : Forest.labels [t'] = Forest.labels [t] :=
        Forest.labels_of_shapes (by simpa using hshape)
      rw [← hlabel]
      exact hsame
    rw [← hlabels] at hvalid
    have hmem := (h.mem_items_iff hd.stacked.walk hst _).mpr hvalid
    have hahead : d.lookahead.symbol = Symbol.endMarker :=
      lookahead_eq (z := []) hrest (by simp [he])
    rw [hd.state_eq, hahead]
    refine h.action?_of_candidate hfree hst (.accept hmem h.rule?_zero ?_ rfl)
    exact Item.next?_of_rule h.rule?_zero 1
  refine ⟨steps, d, t', ?_, ?_, hd.forest_eq, hshape, ?_⟩
  · simpa using hruns
  · simpa using hlen
  · exact turn_of_accept haction

/-- Without conflicts, every word that the symbol behind the start symbol derives
    leads to acceptance. -/
theorem exists_accepting_run_of_derives (h : Table.Tabular g s)
    (hfree : (Table.ofGrammar g).conflicts = []) {w : List Symbol} (hder : g.Derives [s] w)
    (hw : g.IsWord w) (front : List Token) (e : Token) (hfront : front.map Token.symbol = w)
    (he : e.symbol = Symbol.endMarker) (last : Token) :
    ∃ n steps d, Runs g (Table.ofGrammar g) n (.fresh (front ++ [e]) last) steps d ∧
      turn g (Table.ofGrammar g) d = d.stop .accept true := by
  obtain ⟨trees, hlabels, hword, htrees⟩ := hder.exists_forest h.toWellFormed hw
  obtain ⟨t, rfl, hlabel⟩ := List.map_eq_singleton_iff.mp hlabels
  have hyield : front.map Token.symbol = t.word := by simpa [hfront] using hword.symm
  obtain ⟨steps, d, -, hruns, -, -, -, hend⟩ :=
    exists_accepting_run h hfree (htrees t List.mem_cons_self) hlabel hyield he last
  exact ⟨_, steps, d, hruns, hend⟩

/-! ## Completions -/

/-- Tokens that spell a word. -/
def spell (w : List Symbol) : List Token :=
  w.map fun x => { symbol := x, lexeme := [], span := Span.zero }

@[simp] theorem symbol_spell (w : List Symbol) : (spell w).map Token.symbol = w := by
  rw [spell, List.map_map]
  exact List.map_id w

theorem spell_append (w v : List Symbol) : spell (w ++ v) = spell w ++ spell v :=
  List.map_append

/-- The trees on a stack together with a word that completes their labels. -/
structure Completed (g : Grammar) (s : Symbol) (x : List Symbol) (f : Forest) (z : List Symbol) :
    Prop where
  stacked : ∃ stack k, Stacked g stack k f
  word : f.word = x
  derives : g.Derives [s] (f.labels ++ z)
  isWord : g.IsWord z

/-- The trees on any stack can be completed. -/
theorem Stacked.exists_completed (h : Table.Tabular g s) (hp : g.Productive) {stack : List Frame}
    {k : Nat} {f : Forest} (hf : Stacked g stack k f) : ∃ z, Completed g s f.word f z := by
  obtain ⟨-, -, i, hi⟩ := h.exists_valid hf.walk
  obtain ⟨z, hz, hder⟩ := hi.exists_word_behind h.toRooted hp
  exact ⟨z, ⟨stack, k, hf⟩, rfl, hder, hz⟩

/-- What was consumed and the completion are derived from the start symbol. -/
theorem Completed.derives_word {x z : List Symbol} {f : Forest} (h : Table.Tabular g s)
    (hf : Completed g s x f z) :
    g.Derives [s] (x ++ z) ∧ g.IsWord (x ++ z) := by
  obtain ⟨stack, k, hstacked⟩ := hf.stacked
  obtain ⟨hder, hword⟩ := hstacked.isDerivation.derives h.toWellFormed
  rw [hf.word] at hder hword
  refine ⟨hf.derives.trans ?_, hword.append hf.isWord⟩
  simpa using hder.inside [] z

end Simulator

end ShiftReduce
