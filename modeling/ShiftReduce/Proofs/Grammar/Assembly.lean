import ShiftReduce.Proofs.Grammar.WellFormed

/-! # Assembly — checked parts make a grammar

    The checks of `Grammar.assemble` are no stronger than `Checked`: the parts of
    a checked grammar, put together again, are that grammar, and the rules may come
    in any order (`Checked.assemble_eq_of_perm`). -/

namespace ShiftReduce

namespace Grammar

namespace Checked

variable {g : Grammar}

/-- A checked grammar has no defect in any rule. -/
theorem ruleDefect?_eq_none (hg : g.Checked) {r : Production} (hr : r ∈ g.rules) :
    g.ruleDefect? r = none := by
  have hlhs : g.isNonterminal r.lhs = true := isNonterminal_iff.mpr (hg.lhs_mem r hr)
  have hfind : r.body.find? (fun s => s != Symbol.epsilon && !g.isDeclared s) = none := by
    refine List.find?_eq_none.mpr ?_
    intro s hs
    have hdeclared : g.isDeclared s = true := by
      rw [isDeclared, Bool.or_eq_true, isTerminal_iff, isNonterminal_iff]
      exact hg.body_mem r hr s hs
    simp [hdeclared]
  have hepsilon : r.body.contains Symbol.epsilon = false := by
    rw [← Bool.not_eq_true, List.contains_iff_mem]
    intro hmem
    exact (hg.ne_of_mem (hg.body_mem r hr _ hmem)).1 rfl
  rw [ruleDefect?, hlhs, hfind, hepsilon]
  rfl

/-- Nor has it any other defect. -/
theorem defect?_eq_none (hg : g.Checked) : g.defect? = none := by
  have hdeclarable : (g.terminals ++ g.nonterminals).find? (fun s => !s.isDeclarable) = none := by
    refine List.find?_eq_none.mpr ?_
    intro s hs
    simp [hg.declarable s (List.mem_append.mp hs)]
  have hstart : g.isNonterminal g.start = true := isNonterminal_iff.mpr hg.start_mem
  rw [defect?, hdeclarable, hstart]
  exact List.findSome?_eq_none_iff.mpr fun r hr => hg.ruleDefect?_eq_none hr

/-- The parts of a checked grammar that is not augmented pass all checks, with the
    rules in any order. -/
theorem assemble_eq_of_perm (hg : g.Checked) (hinner : g.innerStart = none) (hne : g.rules ≠ [])
    {rules : List Production} (hperm : rules.Perm g.rules) :
    assemble g.name g.start g.terminals g.nonterminals (rules.map some) = .ok g := by
  obtain ⟨name, start, inner, terminals, nonterminals, ordered⟩ := g
  obtain rfl : inner = none := hinner
  have hrules : (rules.map some).isEmpty = false := by
    rw [List.isEmpty_eq_false_iff, ne_eq, List.map_eq_nil_iff]
    rintro rfl
    exact hne hperm.nil_eq.symm
  rw [assemble, hrules, arrange?_of_perm hperm hg.numbered]
  simp only [hg.defect?_eq_none]
  rfl

/-- So a checked grammar is assembled from its own parts. -/
theorem assemble_eq (hg : g.Checked) (hinner : g.innerStart = none) (hne : g.rules ≠ []) :
    assemble g.name g.start g.terminals g.nonterminals (g.rules.map some) = .ok g :=
  hg.assemble_eq_of_perm hinner hne (List.Perm.refl _)

end Checked

end Grammar

end ShiftReduce
