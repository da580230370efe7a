import Mathlib.Data.List.FinRange
import ShiftReduce.Proofs.Grammar.Assembly
import ShiftReduce.Proofs.Grammar.Derivation

/-! # Renumbering — the same rules under other numbers

    A permutation of the rule numbers turns a grammar into one with the same
    alphabets and the same rules in another order (`Grammar.renumbered`), which is
    assembled from the rules with their new numbers, in whatever order they come.
    What matters of it is said by `Renumbers`: the rules are the old ones with new
    numbers, and no two get the same one.  This goes along with augmentation, where
    rule 0 is new and the other numbers are raised, and derivations cannot tell the
    two grammars apart. -/

namespace ShiftReduce

/-- The rule with another number. -/
def Production.renumbered (number : Int → Int) (r : Production) : Production :=
  { r with id := number r.id }

namespace Grammar

/-- Where a permutation of the first numbers takes a number; all others stay. -/
def renumber {n : Nat} (π : Equiv.Perm (Fin n)) : Int → Int
  | .ofNat k => if h : k < n then (π ⟨k, h⟩ : Nat) else k
  | .negSucc k => .negSucc k

/-- The numbers of an augmented grammar: 0 stays, the others are raised by one. -/
def raised (number : Int → Int) (p : Int) : Int :=
  if p = 0 then 0 else number (p - 1) + 1

/-- The grammar in which rule `i` is rule `π i`. -/
def renumbered (g : Grammar) (π : Equiv.Perm (Fin g.rules.length)) : Grammar :=
  { g with rules := List.ofFn fun j => { g.rules.get (π.symm j) with id := (j : Nat) } }

/-- A grammar with the rules of another one under new numbers. -/
structure Renumbers (number : Int → Int) (g g' : Grammar) : Prop where
  start : g'.start = g.start
  innerStart : g'.innerStart = g.innerStart
  terminals : g'.terminals = g.terminals
  nonterminals : g'.nonterminals = g.nonterminals
  mem_rules : ∀ r, r ∈ g'.rules ↔ ∃ q ∈ g.rules, q.renumbered number = r
  injective : ∀ q ∈ g.rules, ∀ r ∈ g.rules, number q.id = number r.id → q = r

/-! ## Permutations of rules -/

section Permutations

variable {g : Grammar}

/-- The number of a rule is taken where the permutation takes its place. -/
theorem renumber_id (hg : g.Checked) (π : Equiv.Perm (Fin g.rules.length)) (i : Fin g.rules.length) :
    renumber π (g.rules.get i).id = (π i : Nat) := by
  have hid : (g.rules.get i).id = (i : Nat) := hg.numbered i _ (List.getElem?_eq_getElem i.isLt)
  rw [hid]
  exact dif_pos i.isLt

/-- The rules with their new numbers are those of the renumbered grammar, in the
    old order. -/
theorem perm_rules_renumbered (hg : g.Checked) (π : Equiv.Perm (Fin g.rules.length)) :
    (g.rules.map (Production.renumbered (renumber π))).Perm (g.renumbered π).rules := by
  have hmap : g.rules.map (Production.renumbered (renumber π)) =
      List.ofFn ((fun j : Fin g.rules.length =>
        ({ g.rules.get (π.symm j) with id := (j : Nat) } : Production)) ∘ π) := by
    refine List.ext_getElem (by rw [List.length_map, List.length_ofFn]) ?_
    intro n hn _
    rw [List.length_map] at hn
    rw [List.getElem_map, List.getElem_ofFn]
    show ({ g.rules[n] with id := renumber π (g.rules.get ⟨n, hn⟩).id } : Production) =
      { g.rules.get (π.symm (π ⟨n, hn⟩)) with id := (π ⟨n, hn⟩ : Nat) }
    rw [renumber_id hg π, Equiv.symm_apply_apply]
    rfl
  rw [hmap]
  exact π.ofFn_comp_perm _

/-- Permuting the rules gives a grammar with the same rules under new numbers. -/
theorem Checked.renumbers (hg : g.Checked) (π : Equiv.Perm (Fin g.rules.length)) :
    Renumbers (renumber π) g (g.renumbered π) where
  start := rfl
  innerStart := rfl
  terminals := rfl
  nonterminals := rfl
  mem_rules := by
    intro r
    rw [← (perm_rules_renumbered hg π).mem_iff, List.mem_map]
  injective := by
    intro q hq r hr h
    obtain ⟨i, rfl⟩ := List.mem_iff_get.mp hq
    obtain ⟨j, rfl⟩ := List.mem_iff_get.mp hr
    rw [renumber_id hg, renumber_id hg] at h
    have hij : π i = π j := Fin.ext (by omega)
    rw [π.injective hij]

/-- The renumbered grammar is checked like the grammar. -/
theorem Renumbers.checked {number : Int → Int} {g' : Grammar} (h : Renumbers number g g')
    (hg : g.Checked) (hnumbered : ∀ (n : Nat) (r : Production), g'.rules[n]? = some r → r.id = n) :
    g'.Checked where
  numbered := hnumbered
  declarable := by
    rw [h.terminals, h.nonterminals]
    exact hg.declarable
  start_mem := by
    rw [h.start, h.nonterminals]
    exact hg.start_mem
  lhs_mem := by
    intro r hr
    obtain ⟨q, hq, rfl⟩ := (h.mem_rules r).mp hr
    rw [h.nonterminals]
    exact hg.lhs_mem q hq
  body_mem := by
    intro r hr
    obtain ⟨q, hq, rfl⟩ := (h.mem_rules r).mp hr
    rw [h.terminals, h.nonterminals]
    exact hg.body_mem q hq

/-- The permuted grammar is checked as well. -/
theorem Checked.renumbered (hg : g.Checked) (π : Equiv.Perm (Fin g.rules.length)) :
    (g.renumbered π).Checked := by
  refine (hg.renumbers π).checked hg ?_
  intro n r hr
  obtain ⟨hn, rfl⟩ := List.getElem?_eq_some_iff.mp hr
  simp only [Grammar.renumbered, List.getElem_ofFn]

/-- The rules of a grammar with their new numbers are assembled to the renumbered
    grammar. -/
theorem assemble_renumbered (hg : g.Checked) (hinner : g.innerStart = none) (hne : g.rules ≠ [])
    (π : Equiv.Perm (Fin g.rules.length)) :
    assemble g.name g.start g.terminals g.nonterminals
      (g.rules.map fun r => some (r.renumbered (renumber π))) = .ok (g.renumbered π) := by
  have hperm := perm_rules_renumbered hg π
  have hrules : (g.renumbered π).rules ≠ [] := by
    intro hnil
    rw [hnil, List.perm_nil, List.map_eq_nil_iff] at hperm
    exact hne hperm
  have hassemble := (hg.renumbered π).assemble_eq_of_perm hinner hrules hperm
  rw [List.map_map] at hassemble
  exact hassemble

end Permutations

/-! ## Renumbered grammars -/

namespace Renumbers

variable {number : Int → Int} {g g' : Grammar}

/-- Every rule stands in the other grammar under its new number. -/
theorem mem_of_mem (h : Renumbers number g g') {r : Production} (hr : r ∈ g.rules) :
    r.renumbered number ∈ g'.rules :=
  (h.mem_rules _).mpr ⟨r, hr, rfl⟩

/-- A rule is found under its new number. -/
theorem rule?_number (h : Renumbers number g g') (hg : g.Checked) (hg' : g'.Checked) {p : Int}
    {r : Production} (hr : g.rule? p = some r) :
    g'.rule? (number p) = some (r.renumbered number) := by
  rw [← hg.id_of_rule? hr]
  exact hg'.rule?_id (h.mem_of_mem (mem_of_rule? hr))

/-- Every rule was there before, under an old number. -/
theorem exists_rule (h : Renumbers number g g') (hg : g.Checked) (hg' : g'.Checked) {p : Int}
    {r : Production} (hr : g'.rule? p = some r) :
    ∃ q, g.rule? q.id = some q ∧ number q.id = p ∧ q.renumbered number = r := by
  obtain ⟨q, hq, rfl⟩ := (h.mem_rules r).mp (mem_of_rule? hr)
  exact ⟨q, hg.rule?_id hq, hg'.id_of_rule? hr, rfl⟩

/-- Different rules have different new numbers. -/
theorem number_inj (h : Renumbers number g g') (hg : g.Checked) {p q : Int} {r s : Production}
    (hp : g.rule? p = some r) (hq : g.rule? q = some s) (heq : number p = number q) : p = q := by
  rw [← hg.id_of_rule? hp, ← hg.id_of_rule? hq] at heq ⊢
  rw [h.injective r (mem_of_rule? hp) s (mem_of_rule? hq) heq]

theorem isTaken_eq (h : Renumbers number g g') (s : Symbol) : g'.isTaken s = g.isTaken s := by
  rw [isTaken, isTaken, isDeclared, isDeclared, isTerminal, isTerminal, isNonterminal,
    isNonterminal, h.terminals, h.nonterminals]

/-- So the same start symbol is added. -/
theorem freshStart_eq (h : Renumbers number g g') : g'.freshStart = g.freshStart := by
  have hprimed : ∀ (fuel : Nat) (s : Symbol), g'.primed fuel s = g.primed fuel s := by
    intro fuel
    induction fuel with
    | zero => exact fun _ => rfl
    | succ fuel ih =>
        intro s
        rw [primed, primed, h.isTaken_eq, ih]
  rw [freshStart, freshStart, h.terminals, h.nonterminals, h.start, hprimed]

/-- Augmented, the grammars have the same new rule 0, and the other numbers are
    raised. -/
theorem augmented (h : Renumbers number g g') (hg : g.Checked) (hg' : g'.Checked) :
    Renumbers (raised number) g.augmented g'.augmented := by
  have hroot : (⟨0, g'.freshStart, [g'.start]⟩ : Production) = ⟨0, g.freshStart, [g.start]⟩ := by
    rw [h.freshStart_eq, h.start]
  have hraised : ∀ q ∈ g.rules, raised number (q.id + 1) = number q.id + 1 := by
    intro q hq
    have hrange := (hg.id_range hq).1
    rw [raised, if_neg (by omega), Int.add_sub_cancel]
  refine
    { start := h.freshStart_eq
      innerStart := congrArg some h.start
      terminals := h.terminals
      nonterminals := congrArg₂ List.cons h.freshStart_eq h.nonterminals
      mem_rules := ?_
      injective := ?_ }
  · intro r
    rw [mem_rules_augmented, hroot]
    constructor
    · rintro (rfl | ⟨q', hq', rfl⟩)
      · exact ⟨_, mem_rules_augmented.mpr (Or.inl rfl), rfl⟩
      · obtain ⟨q, hq, rfl⟩ := (h.mem_rules q').mp hq'
        refine ⟨_, mem_rules_augmented.mpr (Or.inr ⟨q, hq, rfl⟩), ?_⟩
        simp only [Production.renumbered, hraised q hq]
    · rintro ⟨q, hq, rfl⟩
      rcases mem_rules_augmented.mp hq with rfl | ⟨q, hmem, rfl⟩
      · exact Or.inl rfl
      · refine Or.inr ⟨q.renumbered number, h.mem_of_mem hmem, ?_⟩
        simp only [Production.renumbered, hraised q hmem]
  · -- no old rule becomes rule 0, which is left to the new one
    have hne : ∀ q ∈ g.rules, raised number (q.id + 1) ≠ 0 := by
      intro q hq
      have hrange : 0 ≤ number q.id := (hg'.id_range (h.mem_of_mem hq)).1
      rw [hraised q hq]
      omega
    intro q hq r hr heq
    rcases mem_rules_augmented.mp hq with rfl | ⟨q, hq', rfl⟩
    · rcases mem_rules_augmented.mp hr with rfl | ⟨r, hr', rfl⟩
      · rfl
      · exact absurd heq.symm (hne r hr')
    · rcases mem_rules_augmented.mp hr with rfl | ⟨r, hr', rfl⟩
      · exact absurd heq (hne q hq')
      · rw [hraised q hq', hraised r hr'] at heq
        rw [h.injective q hq' r hr' (by omega)]

/-- Derivations do not read rule numbers. -/
theorem derives_eq (h : Renumbers number g g') : g'.Derives = g.Derives := by
  have hrewrites : g'.Rewrites = g.Rewrites := by
    ext u v
    constructor
    · rintro ⟨a, b, r, hr⟩
      obtain ⟨q, hq, rfl⟩ := (h.mem_rules r).mp hr
      exact .step a b q hq
    · rintro ⟨a, b, r, hr⟩
      exact .step a b (r.renumbered number) (h.mem_of_mem hr)
  rw [Derives, Derives, hrewrites]

end Renumbers

end Grammar

end ShiftReduce
