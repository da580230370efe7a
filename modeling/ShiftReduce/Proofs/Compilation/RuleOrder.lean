import ShiftReduce.Proofs.Table.Renumbering

/-! # The order of rules — compilations differ in numbers only

    A grammar is compiled by passes that all go through the rules in order.  Here
    it is put together that the order leaves no trace but the numbers of rules and
    states: not in FIRST and FOLLOW, not in the automaton, not in whether there are
    conflicts, and, if there are none, not in any cell of the tables. -/

namespace ShiftReduce

namespace Grammar

variable {g : Grammar}

/-- A checked grammar whose bodies are short enough has a charted automaton once it is
    augmented. -/
theorem Checked.charted_augmented (hg : g.Checked)
    (hbodies : ∀ r ∈ g.rules, r.body.length < 9223372036854775808) :
    Automaton.Charted g.augmented :=
  { hg.augmented with
    rule_zero := rfl
    bounded := by
      refine Or.inr ?_
      intro r hr
      rcases mem_rules_augmented.mp hr with rfl | ⟨q, hq, rfl⟩
      · exact (by decide : 1 < 9223372036854775808)
      · exact hbodies q hq }

/-- With few enough rules and states its tables can be read as well, as all numbers fit
    into the cells. -/
theorem WellFormed.tabular_augmented (hg : g.WellFormed)
    (hbodies : ∀ r ∈ g.rules, r.body.length < 9223372036854775808) (hrules : g.size < 2147483646)
    (hstates : (Automaton.build g.augmented).size < 2147483646) :
    Table.Tabular g.augmented g.start :=
  { hg.rooted_augmented, hg.toChecked.charted_augmented hbodies with
    rules_fit := by
      show (_ :: g.rules.map _).length ≤ 2147483646
      rw [List.length_cons, List.length_map]
      exact hrules
    cells_fit := Nat.lt_trans hstates (by decide) }

end Grammar

/-- An assembled grammar is compiled by way of its augmentation. -/
theorem Compilation.compile_of_assemble {g : Grammar} {name : String} {start : Symbol}
    {terminals nonterminals : List Symbol} {rules : List (Option Production)}
    (hg : Grammar.assemble name start terminals nonterminals rules = .ok g) :
    compile g = .ok (ofAnalysis (Analysis.ofGrammar g.augmented)) := by
  rw [compile, Analysis.make, Grammar.ensureAugmented_of_assemble hg]
  rfl

/-- **The order of rules does not matter.**  Let a grammar be assembled with disjoint
    alphabets, and let its rules be numbered anew by any permutation.  The rules with
    their new numbers are assembled, too, and both grammars are compiled.  Their
    analyses agree, before and after augmentation.  The states of their automata
    correspond one to one, state 0 to state 0, with the same transitions, acceptance
    and items.  There are conflicts in both tables or in none, and if there are none,
    the tables correspond cell by cell.  The bounds are those of the numbers that
    hold dots and cells. -/
theorem Compilation.rule_order_invisible {g : Grammar} {name : String} {start : Symbol}
    {terminals nonterminals : List Symbol} {rules : List (Option Production)}
    (hg : Grammar.assemble name start terminals nonterminals rules = .ok g)
    (hd : ∀ s ∈ g.terminals, s ∉ g.nonterminals) (π : Equiv.Perm (Fin g.rules.length)) :
    ∃ g' c c', Grammar.assemble g.name g.start g.terminals g.nonterminals
        (g.rules.map fun r => some (r.renumbered (Grammar.renumber π))) = .ok g' ∧
      compile g = .ok c ∧ compile g' = .ok c' ∧
      (Analysis.ofGrammar g).agrees (Analysis.ofGrammar g') = true ∧
      c.analysis.agrees c'.analysis = true ∧
      ((∀ r ∈ g.rules, r.body.length < 9223372036854775808) →
        ∃ σ, Automaton.Isomorphic (Grammar.raised (Grammar.renumber π)) σ c.automaton c'.automaton ∧
          (g.size < 2147483646 → c.automaton.size < 2147483646 →
            c'.table.hasConflicts = c.table.hasConflicts ∧
            (c.table.hasConflicts = false →
              Table.Corresponds (Grammar.raised (Grammar.renumber π)) σ c.table c'.table))) := by
  obtain ⟨hwf, hinner, hne⟩ := Grammar.assemble_wellFormed hg hd
  have hchecked := hwf.toChecked
  have hg' := Grammar.assemble_renumbered hchecked hinner hne π
  have hwf' := (Grammar.assemble_wellFormed hg' hd).1
  -- renumbering the rules renumbers those of the augmented grammar, one higher
  have hrenumbers := hchecked.renumbers π
  have haugmented := hrenumbers.augmented hchecked hwf'.toChecked
  -- the analyses agree on every grammar that was made; there are four of them here
  have hmade : g.Made := .assembled hg
  have hmade' : (g.renumbered π).Made := .assembled hg'
  have hmadeUp : g.augmented.Made := .augmented hmade (Grammar.augment_eq hne)
  have hmadeUp' : (g.renumbered π).augmented.Made :=
    .augmented hmade' (Grammar.augment_eq (Grammar.assemble_wellFormed hg' hd).2.2)
  have hroot := hwf.rooted_augmented
  have hroot' := hwf'.rooted_augmented
  refine ⟨g.renumbered π, _, _, hg', compile_of_assemble hg, compile_of_assemble hg',
    hrenumbers.agrees hmade hmade' hwf hwf',
    haugmented.agrees hmadeUp hmadeUp' hroot.toWellFormed hroot'.toWellFormed, ?_⟩
  intro hbodies
  have hbodies' : ∀ r ∈ (g.renumbered π).rules, r.body.length < 9223372036854775808 := by
    intro r hr
    obtain ⟨q, hq, rfl⟩ := (hrenumbers.mem_rules r).mp hr
    exact hbodies q hq
  -- states are matched by their walks, which know nothing of numbers
  obtain ⟨σ, hσ⟩ := Automaton.Charted.exists_isomorphic haugmented rfl hroot
    (hchecked.charted_augmented hbodies) (hwf'.toChecked.charted_augmented hbodies')
  refine ⟨σ, hσ, ?_⟩
  intro hrules hstates
  have hrules' : (g.renumbered π).size < 2147483646 := by
    rw [Grammar.size, Grammar.renumbered, List.length_ofFn]
    exact hrules
  have hstates' : (Automaton.build (g.renumbered π).augmented).size < 2147483646 := by
    rw [← hσ.size_eq]
    exact hstates
  -- rules, follow sets and states correspond, and that is all a table is made of
  have hreordered : Table.Reordered (Grammar.raised (Grammar.renumber π)) σ g.augmented
      (g.renumbered π).augmented g.start :=
    { tabular := hwf.tabular_augmented hbodies hrules hstates
      tabular' := hwf'.tabular_augmented hbodies' hrules' hstates'
      renumbers := haugmented
      follow := haugmented.follow_eq hmadeUp hmadeUp' hroot.toWellFormed hroot'.toWellFormed
      isomorphic := hσ }
  constructor
  · show (!(Table.ofGrammar (g.renumbered π).augmented).conflicts.isEmpty) =
      !(Table.ofGrammar g.augmented).conflicts.isEmpty
    congr 1
    rw [Bool.eq_iff_iff, List.isEmpty_iff, List.isEmpty_iff]
    exact hreordered.conflicts_iff
  · intro hfree
    rw [Table.hasConflicts, Bool.not_eq_eq_eq_not, Bool.not_false, List.isEmpty_iff] at hfree
    exact hreordered.corresponds hfree

/-- The small grammar with its two rules swapped. -/
theorem Compilation.rule_order_invisible_swapped :
    ∃ g' c c', Grammar.assemble "sample" "S" ["a", "b"] ["S", "N"]
        [some { id := 1, lhs := "S", body := ["N", "a"] },
          some { id := 0, lhs := "N", body := [] }] = .ok g' ∧
      compile sampleGrammar = .ok c ∧ compile g' = .ok c' ∧ c.table.hasConflicts = false ∧
      c'.table.hasConflicts = false ∧ ∃ number σ, number 1 = 2 ∧ number 2 = 1 ∧
        Table.Corresponds number σ c.table c'.table := by
  have hassembled : Grammar.assemble "sample" "S" ["a", "b"] ["S", "N"]
      [some { id := 0, lhs := "S", body := ["N", "a"] }, some { id := 1, lhs := "N", body := [] }]
        = .ok sampleGrammar := rfl
  obtain ⟨g', c, c', hg', hc, hc', -, -, hrest⟩ := rule_order_invisible hassembled (by decide)
    (Equiv.swap ⟨0, by decide⟩ ⟨1, by decide⟩)
  obtain ⟨σ, -, htables⟩ := hrest (by decide)
  obtain rfl : sampleCompilation = c := Except.ok.inj (compiled_sample.compiled.symm.trans hc)
  have hfree : sampleCompilation.table.hasConflicts = false := by decide +kernel
  obtain ⟨hsame, hcorresponds⟩ := htables (by decide) (by decide +kernel)
  refine ⟨g', _, c', hg', hc, hc', hfree, hsame.trans hfree, _, σ, ?_, ?_, hcorresponds hfree⟩
  · decide
  · decide

end ShiftReduce
