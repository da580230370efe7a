import ShiftReduce.Proofs.Analysis.FollowExact
import ShiftReduce.Proofs.Grammar.Assembly

/-! # Overlapping alphabets — a symbol of both kinds is a nonterminal

    `Grammar.assemble` does not ask for disjoint alphabets.  The analysis treats
    a symbol of both alphabets as a nonterminal, because the sets of nonterminals
    are put over those of terminals: it cannot tell a grammar from the one in
    which such symbols are no terminals (`Grammar.separated`).  The two keep their
    sets in different order, so the rounds are compared by what the maps have for
    each symbol (`SymbolMap.Same`).  A separated grammar is well-formed, and
    separating goes along with augmentation. -/

namespace ShiftReduce

namespace SymbolMap

/-- Two maps have the same for the symbols with a property. -/
def Same (p : Symbol → Prop) (m n : SymbolMap) : Prop :=
  ∀ k, p k → m.lookup k = n.lookup k

variable {p : Symbol → Prop} {m n : SymbolMap}

/-- Maps that agree on a key have the same set there. -/
theorem Same.get_eq (h : Same p m n) {k : Symbol} (hk : p k) : get m k = get n k := by
  rw [get, get, h k hk]

/-- Extending two maps alike keeps them in agreement. -/
theorem Same.extend (h : Same p m n) {k : Symbol} (hk : p k) (s : SymbolSet) :
    Same p (extend k s m) (extend k s n) := by
  intro j hj
  rw [SymbolMap.extend, SymbolMap.extend, h.get_eq hk]
  by_cases hjk : j = k
  · subst hjk
    rw [lookup_put_self, lookup_put_self]
  · rw [lookup_put_of_ne hjk, lookup_put_of_ne hjk]
    exact h j hj

/-- What happens to a symbol without the property does not matter. -/
theorem Same.extend_left (h : Same p m n) {k : Symbol} (hk : ¬ p k) (s : SymbolSet) :
    Same p (SymbolMap.extend k s m) n := by
  intro j hj
  have hjk : j ≠ k := by
    rintro rfl
    exact hk hj
  rw [SymbolMap.extend, lookup_put_of_ne hjk]
  exact h j hj

end SymbolMap

namespace First

open SymbolMap

variable {p : Symbol → Prop} {m n : SymbolMap}

/-- The first symbols of a sequence depend on the sets of its symbols only. -/
theorem ofSequence_same (h : Same p m n) {u : List Symbol} (hu : ∀ s ∈ u, p s) :
    ofSequence m u = ofSequence n u := by
  induction u with
  | nil => rfl
  | cons s u ih =>
      rw [ofSequence, ofSequence, ofSymbol, ofSymbol, h s (hu s List.mem_cons_self),
        ih fun x hx => hu x (List.mem_cons_of_mem _ hx)]

/-- A rule whose symbols two maps agree on has the same effect on both. -/
theorem applyRule_same (h : Same p m n) {r : Production} (hlhs : p r.lhs)
    (hbody : ∀ s ∈ r.body, p s) : Same p (applyRule m r) (applyRule n r) := by
  rw [applyRule, applyRule, ofSequence_same h hbody]
  exact h.extend hlhs _

end First

namespace Grammar

/-- The grammar in which no nonterminal is a terminal as well. -/
def separated (g : Grammar) : Grammar :=
  { g with terminals := g.terminals.filter fun s => !g.nonterminals.contains s }

variable {g : Grammar}

/-- Separating takes the nonterminals out of the terminals. -/
theorem mem_terminals_separated {s : Symbol} :
    s ∈ g.separated.terminals ↔ s ∈ g.terminals ∧ s ∉ g.nonterminals := by
  simp [separated]

/-- Separating a grammar leaves the same symbols declared. -/
theorem declared_separated {s : Symbol} :
    s ∈ g.separated.terminals ∨ s ∈ g.separated.nonterminals ↔
      s ∈ g.terminals ∨ s ∈ g.nonterminals := by
  rw [mem_terminals_separated]
  show s ∈ g.terminals ∧ s ∉ g.nonterminals ∨ s ∈ g.nonterminals ↔ _
  by_cases hs : s ∈ g.nonterminals <;> simp [hs]

/-- Without the overlap, a checked grammar is well-formed. -/
theorem Checked.separated (hg : g.Checked) : g.separated.WellFormed where
  numbered := hg.numbered
  declarable := fun s hs => hg.declarable s (declared_separated.mp hs)
  start_mem := hg.start_mem
  lhs_mem := hg.lhs_mem
  body_mem := fun r hr s hs => declared_separated.mpr (hg.body_mem r hr s hs)
  disjoint := fun _ hs => (mem_terminals_separated.mp hs).2

/-- No name becomes free by separating: what is no terminal any longer is a
    nonterminal. -/
theorem isTaken_separated (s : Symbol) : g.separated.isTaken s = g.isTaken s := by
  have hdeclared : g.separated.isDeclared s = g.isDeclared s := by
    rw [Bool.eq_iff_iff, isDeclared, isDeclared, Bool.or_eq_true, Bool.or_eq_true, isTerminal_iff,
      isNonterminal_iff, isTerminal_iff, isNonterminal_iff]
    exact declared_separated
  rw [isTaken, isTaken, hdeclared]

/-! ## Separated grammars, augmented -/

/-- A name that is free is reached by any fuel that is enough. -/
theorem primed_of_free {enough fuel : Nat} {s : Symbol}
    (hfree : g.isTaken (g.primed enough s) = false) (hle : enough ≤ fuel) :
    g.primed fuel s = g.primed enough s := by
  induction enough generalizing fuel s with
  | zero =>
      cases fuel with
      | zero => rfl
      | succ fuel =>
          rw [primed, primed, if_neg]
          exact Bool.eq_false_iff.mp hfree
  | succ enough ih =>
      cases fuel with
      | zero => omega
      | succ fuel =>
          rw [primed] at hfree ⊢
          rw [primed]
          by_cases hs : g.isTaken s = true
          · rw [if_pos hs] at hfree ⊢
            rw [if_pos hs]
            exact ih hfree (by omega)
          · rw [if_neg hs, if_neg hs]

/-- So the same primes are appended. -/
theorem primed_separated (fuel : Nat) (s : Symbol) : g.separated.primed fuel s = g.primed fuel s := by
  induction fuel generalizing s with
  | zero => rfl
  | succ fuel ih => rw [primed, primed, isTaken_separated, ih]

/-- The new start symbol is neither declared nor reserved. -/
theorem isTaken_freshStart (g : Grammar) : g.isTaken g.freshStart = false := by
  obtain ⟨hterminal, hnonterminal⟩ := g.freshStart_fresh
  have hdeclarable := g.isDeclarable_freshStart
  simp only [Symbol.isDeclarable, Symbol.isReserved, Bool.and_eq_true, Bool.not_eq_true',
    Bool.or_eq_false_iff] at hdeclarable
  simp [isTaken, isDeclared, isTerminal, isNonterminal, hterminal, hnonterminal,
    hdeclarable.1.1.1, hdeclarable.1.1.2]

/-- A separated grammar has fewer names to try, and the same one is free first. -/
theorem freshStart_separated (g : Grammar) : g.separated.freshStart = g.freshStart := by
  have hfree := isTaken_freshStart g.separated
  rw [freshStart, primed_separated, isTaken_separated] at hfree
  rw [freshStart, primed_separated, freshStart]
  refine (primed_of_free hfree ?_).symm
  have hle : g.separated.terminals.length ≤ g.terminals.length := List.length_filter_le _ _
  show g.separated.terminals.length + g.nonterminals.length + 1 ≤ _
  omega

/-- It makes no difference which of augmenting and separating comes first. -/
theorem separated_augmented (g : Grammar) : g.augmented.separated = g.separated.augmented := by
  have hterminals : g.augmented.separated.terminals = g.separated.terminals := by
    refine List.filter_congr fun s hs => ?_
    have hne : s ≠ g.freshStart := by
      rintro rfl
      exact g.freshStart_fresh.1 hs
    simp [augmented, hne]
  show { g.augmented with terminals := g.augmented.separated.terminals } = _
  rw [hterminals, augmented, augmented, freshStart_separated]
  rfl

/-- A separated grammar is one that can be made, too. -/
theorem Made.separated (hg : g.Made) : g.separated.Made := by
  induction hg with
  | @assembled name start terminals nonterminals rules g h =>
      obtain ⟨hchecked, hinner, hne⟩ := assemble_checked h
      exact .assembled (hchecked.separated.toChecked.assemble_eq hinner hne)
  | @augmented g g' hg h ih =>
      have hne := hg.checked.2
      obtain rfl : g.augmented = g' := by
        rw [augment, if_neg (by simpa using hne)] at h
        exact Except.ok.inj h
      rw [separated_augmented]
      refine .augmented ih ?_
      have hne' : g.separated.rules ≠ [] := hne
      rw [augment, if_neg (by simpa using hne')]

end Grammar

/-! ## The rounds of a separated grammar -/

namespace First

open SymbolMap

variable {g : Grammar} {m n : SymbolMap}

/-- Both grammars begin with the same sets, as the set of a nonterminal overrides that
    of a terminal. -/
theorem initial_same (g : Grammar) : Same (fun _ => True) (initial g) (initial g.separated) := by
  intro k _
  rw [lookup_initial, lookup_initial]
  show (if k ∈ g.nonterminals then _ else _) = if k ∈ g.nonterminals then _ else _
  by_cases hk : k ∈ g.nonterminals
  · rw [if_pos hk, if_pos hk]
  · rw [if_neg hk, if_neg hk]
    simp only [List.mem_append, Grammar.mem_terminals_separated, hk, not_false_eq_true, and_true]

/-- From there on, round by round, the sets stay the same. -/
theorem round_same (h : Same (fun _ => True) m n) :
    Same (fun _ => True) (round g m) (round g.separated n) := by
  show Same _ (g.rules.foldl applyRule m) (g.rules.foldl applyRule n)
  induction g.rules generalizing m n with
  | nil => exact h
  | cons r rs ih => exact ih (applyRule_same h trivial fun _ _ => trivial)

/-- The separated grammar has fewer symbols, so its bound is no greater. -/
theorem rounds_separated_le (g : Grammar) : rounds g.separated ≤ rounds g := by
  have hle : g.separated.terminals.length ≤ g.terminals.length := List.length_filter_le _ _
  show g.nonterminals.length * (g.separated.terminals.length + 1) + 1 ≤ _
  exact Nat.succ_le_succ (Nat.mul_le_mul_left _ (Nat.succ_le_succ hle))

/-- The FIRST sets of a grammar are those of the separated one. -/
theorem sets_same (hg : g.Checked) : Same (fun _ => True) (sets g) (sets g.separated) := by
  have hkept := round_sets hg.separated
  rw [sets, sets, ← saturate_of_le hkept (rounds_separated_le g)]
  exact saturate_related (fun _ _ h => round_same h) _ _ _ (initial_same g)

/-- The rounds come to an end: where no rule adds to a set of the separated
    grammar, none adds to one of the grammar. -/
theorem round_sets_of_checked (hg : g.Checked) : round g (sets g) = sets g := by
  have hsame := sets_same hg
  have hstage := stage_sets hg.separated
  have hdone (r : Production) (hr : r ∈ g.rules) : applyRule (sets g) r = sets g := by
    have hget : get (sets g) r.lhs = get (sets g.separated) r.lhs := hsame.get_eq trivial
    rw [applyRule, SymbolMap.extend, ofSequence_same hsame fun _ _ => trivial, hget,
      (hstage.sorted r.lhs).union_of_subset, ← hget, put_get]
    · rw [hsame _ trivial]
      exact hstage.present _ (hg.lhs_mem r hr)
    · intro x hx
      have hclosed := sets_closed hg.separated hr hx
      rwa [hstage.ofSymbol_nonterminal (hg.lhs_mem r hr)] at hclosed
  refine List.foldlRecOn (motive := fun m => m = sets g) g.rules applyRule rfl ?_
  intro m hm r hr
  rw [hm, hdone r hr]

end First

namespace Follow

variable {g : Grammar}

/-- A body contributes the same in both grammars. -/
theorem applyBody_separated (hg : g.Checked) (lhs : Symbol) (body : List Symbol) (m : SymbolMap) :
    applyBody g (First.sets g) lhs body m =
      applyBody g.separated (First.sets g.separated) lhs body m := by
  induction body generalizing m with
  | nil => rfl
  | cons s rest ih =>
      have hcontribution : contribution (First.sets g) m lhs rest =
          contribution (First.sets g.separated) m lhs rest := by
        rw [contribution, contribution,
          First.ofSequence_same (First.sets_same hg) fun _ _ => trivial]
      rw [applyBody, applyBody, hcontribution, ih]
      rfl

/-- A whole round does the same in both grammars. -/
theorem round_separated (hg : g.Checked) :
    round g (First.sets g) = round g.separated (First.sets g.separated) := by
  funext m
  show g.rules.foldl _ m = g.rules.foldl _ m
  congr 1
  funext m r
  exact applyBody_separated hg r.lhs r.body m

/-- The FOLLOW sets of a grammar are those of the separated one. -/
theorem sets_separated (hg : g.Checked) :
    sets g (First.sets g) = sets g.separated (First.sets g.separated) := by
  have hkept := round_sets hg.separated
  rw [sets, round_separated hg]
  exact saturate_of_le hkept (First.rounds_separated_le g)

/-- The loop comes to rest, overlap or not. -/
theorem round_sets_of_checked (hg : g.Checked) :
    round g (First.sets g) (sets g (First.sets g)) = sets g (First.sets g) := by
  rw [sets_separated hg, round_separated hg]
  exact round_sets hg.separated

end Follow

end ShiftReduce
