import ShiftReduce.Grammar.Augment
import ShiftReduce.Proofs.Grammar.Arrangement

/-! # Well-formed grammars — what checked parts and augmentation guarantee

    `Grammar.assemble` lets a grammar through only if its rules are numbered by
    their places, its symbols can be declared and its rules use declared
    symbols, which is `Checked`.  Together with disjoint alphabets this is
    `WellFormed`, and augmentation keeps both.  The grammars that were assembled
    and then augmented any number of times are `Made`; they are all checked.  An
    augmented grammar is moreover `Planted`: rule 0 leads from the start symbol to
    the start symbol before, and no other rule mentions the start symbol.  With
    disjoint alphabets it is `Rooted`.  That the new start symbol is fresh is a
    pigeonhole argument: one name more is tried than symbols are declared. -/

namespace ShiftReduce

namespace Grammar

/-- What the checks of an assembled grammar come to. -/
structure Checked (g : Grammar) : Prop where
  numbered : ∀ (n : Nat) (r : Production), g.rules[n]? = some r → r.id = n
  declarable : ∀ s, s ∈ g.terminals ∨ s ∈ g.nonterminals → s.isDeclarable = true
  start_mem : g.start ∈ g.nonterminals
  lhs_mem : ∀ r ∈ g.rules, r.lhs ∈ g.nonterminals
  body_mem : ∀ r ∈ g.rules, ∀ s ∈ r.body, s ∈ g.terminals ∨ s ∈ g.nonterminals

/-- The grammars that the analysis, the tables and the parser rely on. -/
structure WellFormed (g : Grammar) : Prop extends g.Checked where
  disjoint : ∀ s ∈ g.terminals, s ∉ g.nonterminals

/-- A checked grammar whose rule 0 is the only one that mentions the start symbol,
    and leads from it to the symbol `s`.  Its alphabets may overlap. -/
structure Planted (g : Grammar) (s : Symbol) : Prop extends g.Checked where
  root : g.rules[0]? = some { id := 0, lhs := g.start, body := [s] }
  root_only : ∀ r ∈ g.rules, r.lhs = g.start → r.id = 0
  start_unused : ∀ r ∈ g.rules, g.start ∉ r.body

/-- A well-formed grammar whose rule 0 is the only one that mentions the start
    symbol, and leads from it to the symbol `s`. -/
structure Rooted (g : Grammar) (s : Symbol) : Prop extends g.WellFormed where
  root : g.rules[0]? = some { id := 0, lhs := g.start, body := [s] }
  root_only : ∀ r ∈ g.rules, r.lhs = g.start → r.id = 0
  start_unused : ∀ r ∈ g.rules, g.start ∉ r.body

@[simp] theorem isTerminal_iff {g : Grammar} {s : Symbol} :
    g.isTerminal s = true ↔ s ∈ g.terminals := by
  simp [isTerminal]

@[simp] theorem isNonterminal_iff {g : Grammar} {s : Symbol} :
    g.isNonterminal s = true ↔ s ∈ g.nonterminals := by
  simp [isNonterminal]

/-! ## Rules by number -/

/-- A rule that is looked up by its number is one of the rules. -/
theorem mem_of_rule? {g : Grammar} {p : Int} {r : Production}
    (h : g.rule? p = some r) : r ∈ g.rules := by
  cases p with
  | ofNat n => exact List.mem_of_getElem? h
  | negSucc n => exact nomatch h

namespace Checked

variable {g : Grammar}

/-- It has the number that it was looked up by. -/
theorem id_of_rule? (hg : g.Checked) {p : Int} {r : Production}
    (h : g.rule? p = some r) : r.id = p := by
  cases p with
  | ofNat n => exact hg.numbered n r h
  | negSucc n => exact nomatch h

/-- Every rule is found by its number. -/
theorem rule?_id (hg : g.Checked) {r : Production} (h : r ∈ g.rules) :
    g.rule? r.id = some r := by
  obtain ⟨n, hn⟩ := List.mem_iff_getElem?.mp h
  rw [hg.numbered n r hn]
  exact hn

/-- Rule numbers are natural numbers below the number of rules. -/
theorem id_range (hg : g.Checked) {r : Production} (h : r ∈ g.rules) :
    0 ≤ r.id ∧ r.id < g.size := by
  obtain ⟨n, hn⟩ := List.mem_iff_getElem?.mp h
  obtain ⟨hlt, -⟩ := List.getElem?_eq_some_iff.mp hn
  rw [hg.numbered n r hn]
  rw [size]
  omega

/-- A declared symbol is neither reserved nor empty. -/
theorem ne_of_mem (hg : g.Checked) {s : Symbol}
    (h : s ∈ g.terminals ∨ s ∈ g.nonterminals) :
    s ≠ Symbol.epsilon ∧ s ≠ Symbol.endMarker ∧ s ≠ "" := by
  have hs := hg.declarable s h
  simp only [Symbol.isDeclarable, Symbol.isReserved, Bool.and_eq_true, Bool.not_eq_true',
    Bool.or_eq_false_iff, beq_eq_false_iff_ne, bne_iff_ne] at hs
  exact ⟨hs.1.1.1, hs.1.1.2, hs.2⟩

end Checked

/-- Rule 0 leads from the start symbol to the symbol of the original grammar. -/
theorem Planted.rule?_zero {g : Grammar} {s : Symbol} (hg : g.Planted s) :
    g.rule? 0 = some { id := 0, lhs := g.start, body := [s] } :=
  hg.root

theorem Rooted.rule?_zero {g : Grammar} {s : Symbol} (hg : g.Rooted s) :
    g.rule? 0 = some { id := 0, lhs := g.start, body := [s] } :=
  hg.root

/-- If the alphabets are apart, the grammar is well-formed in addition. -/
theorem Rooted.planted {g : Grammar} {s : Symbol} (hg : g.Rooted s) : g.Planted s :=
  { hg with }

/-! ## Assembled grammars -/

/-- A rule without a defect has declared symbols only. -/
theorem ruleDefect?_eq_none {g : Grammar} {r : Production} (h : ruleDefect? g r = none) :
    r.lhs ∈ g.nonterminals ∧ ∀ s ∈ r.body, s ∈ g.terminals ∨ s ∈ g.nonterminals := by
  rw [ruleDefect?] at h
  split at h
  · exact nomatch h
  · rename_i hlhs
    refine ⟨by simpa using hlhs, ?_⟩
    split at h
    · exact nomatch h
    · rename_i hfind
      split at h
      · exact nomatch h
      · rename_i heps
        intro s hs
        have hs' := List.find?_eq_none.mp hfind s hs
        have hne : s ≠ Symbol.epsilon := by
          rintro rfl
          exact heps (by simpa using hs)
        have hdecl : g.isDeclared s = true := by simpa [hne] using hs'
        simpa [isDeclared] using hdecl

/-- A grammar that was assembled is checked, has rules and is not augmented. -/
theorem assemble_checked {name : String} {start : Symbol} {terminals nonterminals : List Symbol}
    {rules : List (Option Production)} {g : Grammar}
    (h : assemble name start terminals nonterminals rules = .ok g) :
    g.Checked ∧ g.innerStart = none ∧ g.rules ≠ [] := by
  -- each check that fails is an error, so all of them have been passed
  rw [assemble] at h
  split at h
  · exact nomatch h
  · rename_i hne
    split at h
    · exact nomatch h
    · rename_i ordered harr
      dsimp only at h
      split at h
      · exact nomatch h
      · rename_i hdef
        cases h
        rw [defect?] at hdef
        split at hdef
        · exact nomatch hdef
        · rename_i hfind
          split at hdef
          · exact nomatch hdef
          · rename_i hstart
            have hrule := List.findSome?_eq_none_iff.mp hdef
            refine ⟨⟨(perm_of_arranged harr).2, ?_, by simpa using hstart,
              fun r hr => (ruleDefect?_eq_none (hrule r hr)).1,
              fun r hr => (ruleDefect?_eq_none (hrule r hr)).2⟩, rfl, ?_⟩
            · intro s hs
              simpa using List.find?_eq_none.mp hfind s (List.mem_append.mpr hs)
            · intro hnil
              have hperm := (perm_of_arranged harr).1
              rw [show ordered = [] from hnil] at hperm
              exact hne (by simpa using hperm)

/-- The alphabets are taken over as they are. -/
theorem assemble_alphabets {name : String} {start : Symbol} {terminals nonterminals : List Symbol}
    {rules : List (Option Production)} {g : Grammar}
    (h : assemble name start terminals nonterminals rules = .ok g) :
    g.terminals = terminals ∧ g.nonterminals = nonterminals := by
  rw [assemble] at h
  split at h
  · exact nomatch h
  · split at h
    · exact nomatch h
    · dsimp only at h
      split at h
      · exact nomatch h
      · cases h
        exact ⟨rfl, rfl⟩

/-- So it is augmented wherever an augmented grammar is wanted. -/
theorem ensureAugmented_of_assemble {name : String} {start : Symbol}
    {terminals nonterminals : List Symbol} {rules : List (Option Production)} {g : Grammar}
    (h : assemble name start terminals nonterminals rules = .ok g) :
    g.ensureAugmented = .ok g.augmented := by
  obtain ⟨-, hinner, hne⟩ := assemble_checked h
  rw [ensureAugmented, if_neg (by simpa using hne), if_neg (by simp [isAugmented, hinner])]

/-- With disjoint alphabets it is well-formed. -/
theorem assemble_wellFormed {name : String} {start : Symbol} {terminals nonterminals : List Symbol}
    {rules : List (Option Production)} {g : Grammar}
    (h : assemble name start terminals nonterminals rules = .ok g)
    (hd : ∀ s ∈ g.terminals, s ∉ g.nonterminals) :
    g.WellFormed ∧ g.innerStart = none ∧ g.rules ≠ [] := by
  obtain ⟨hchecked, hinner, hne⟩ := assemble_checked h
  exact ⟨{ hchecked with disjoint := hd }, hinner, hne⟩

/-! ## Fresh start symbols -/

/-- A name with a number of primes behind it. -/
def withPrimes (s : Symbol) : Nat → Symbol
  | 0 => s
  | k + 1 => withPrimes (s ++ "'") k

/-- Every prime is one character. -/
theorem length_withPrimes (s : Symbol) (k : Nat) : (withPrimes s k).length = s.length + k := by
  induction k generalizing s with
  | zero => rfl
  | succ k ih =>
      show (withPrimes (s ++ "'") k).length = s.length + (k + 1)
      rw [ih, String.length_append]
      show s.length + 1 + k = s.length + (k + 1)
      omega

/-- Behind a first prime, more primes still leave a prime at the end. -/
theorem exists_withPrimes_eq (s : Symbol) (k : Nat) : ∃ t, withPrimes (s ++ "'") k = t ++ "'" := by
  induction k generalizing s with
  | zero => exact ⟨s, rfl⟩
  | succ k ih => exact ih (s ++ "'")

/-- A name with a prime is neither reserved nor empty. -/
theorem isDeclarable_append_prime (t : Symbol) : Symbol.isDeclarable (t ++ "'") = true := by
  have hlast : (t ++ "'").toList.getLast? = some '\'' := by simp
  have hne : ∀ u : Symbol, u.toList.getLast? ≠ some '\'' → t ++ "'" ≠ u := by
    rintro u hu rfl
    exact hu hlast
  simp [Symbol.isDeclarable, Symbol.isReserved, hne Symbol.epsilon (by decide),
    hne Symbol.endMarker (by decide), hne Symbol.unmatched (by decide), hne "" (by decide)]

/-- Adding primes ends with a name that is free, or has found every name on the
    way taken. -/
theorem primed_eq_withPrimes (g : Grammar) : ∀ (fuel : Nat) (s : Symbol),
    ∃ k, g.primed fuel s = withPrimes s k ∧
      (g.isTaken (withPrimes s k) = false ∨
        k = fuel ∧ ∀ j < fuel, g.isTaken (withPrimes s j) = true) := by
  intro fuel
  induction fuel with
  | zero => intro s; exact ⟨0, rfl, Or.inr ⟨rfl, fun j hj => absurd hj (by omega)⟩⟩
  | succ fuel ih =>
      intro s
      rw [primed]
      cases hs : g.isTaken s with
      | false => exact ⟨0, by simp [withPrimes], Or.inl hs⟩
      | true =>
          obtain ⟨k, hk, hfree⟩ := ih (s ++ "'")
          refine ⟨k + 1, by simpa [withPrimes] using hk, ?_⟩
          rcases hfree with hfree | ⟨rfl, hall⟩
          · exact Or.inl hfree
          · refine Or.inr ⟨rfl, ?_⟩
            intro j hj
            cases j with
            | zero => exact hs
            | succ j => exact hall j (by omega)

/-- The new start symbol is not declared. -/
theorem freshStart_fresh (g : Grammar) :
    g.freshStart ∉ g.terminals ∧ g.freshStart ∉ g.nonterminals := by
  have hfree : g.isTaken g.freshStart = false := by
    obtain ⟨k, hk, hfree | ⟨-, hall⟩⟩ := primed_eq_withPrimes g
      (g.terminals.length + g.nonterminals.length + 1) (g.start ++ "'")
    · rw [freshStart, hk]
      exact hfree
    · -- all names that were tried are different and declared, which are too many
      exfalso
      let names := (List.range (g.terminals.length + g.nonterminals.length + 1)).map
        (withPrimes (g.start ++ "'"))
      have hnodup : names.Nodup := by
        refine List.Nodup.map ?_ List.nodup_range
        intro i j hij
        have := congrArg String.length hij
        rw [length_withPrimes, length_withPrimes] at this
        omega
      have hsub : names ⊆ g.terminals ++ g.nonterminals := by
        intro s hs
        obtain ⟨j, hj, rfl⟩ := List.mem_map.mp hs
        have htaken := hall j (List.mem_range.mp hj)
        obtain ⟨t, ht⟩ := exists_withPrimes_eq g.start j
        have hdecl := isDeclarable_append_prime t
        rw [← ht] at hdecl
        simp only [Symbol.isDeclarable, Symbol.isReserved, Bool.and_eq_true, Bool.not_eq_true',
          Bool.or_eq_false_iff] at hdecl
        simpa [isTaken, isDeclared, hdecl.1.1.1, hdecl.1.1.2] using htaken
      have hlen := (hnodup.subperm hsub).length_le
      simp only [names, List.length_map, List.length_range, List.length_append] at hlen
      omega
  simpa [isTaken, isDeclared, isTerminal, isNonterminal] using
    (Bool.or_eq_false_iff.mp (Bool.or_eq_false_iff.mp hfree).1).1

/-- So the new start symbol may be declared. -/
theorem isDeclarable_freshStart (g : Grammar) : g.freshStart.isDeclarable = true := by
  obtain ⟨k, hk, -⟩ := primed_eq_withPrimes g
    (g.terminals.length + g.nonterminals.length + 1) (g.start ++ "'")
  obtain ⟨t, ht⟩ := exists_withPrimes_eq g.start k
  rw [freshStart, hk, ht]
  exact isDeclarable_append_prime t

/-! ## Augmented grammars -/

theorem augment_eq {g : Grammar} (hne : g.rules ≠ []) : g.augment = .ok g.augmented := by
  rw [augment, if_neg (by simpa using hne)]

/-- The rules of an augmented grammar are rule 0 and the old ones, moved up. -/
theorem mem_rules_augmented {g : Grammar} {r : Production} :
    r ∈ g.augmented.rules ↔ r = { id := 0, lhs := g.freshStart, body := [g.start] } ∨
      ∃ q ∈ g.rules, { q with id := q.id + 1 } = r := by
  simp [augmented]

/-- Augmentation keeps the checks. -/
theorem Checked.augmented {g : Grammar} (hg : g.Checked) : g.augmented.Checked := by
  refine
    { numbered := ?_, declarable := ?_, start_mem := by simp [Grammar.augmented], lhs_mem := ?_,
      body_mem := ?_ }
  · -- rule 0 is new, and every other rule has moved up by one
    intro n r hr
    cases n with
    | zero =>
        obtain rfl : _ = r := Option.some.inj hr
        rfl
    | succ n =>
        obtain ⟨q, hq, rfl⟩ : ∃ q, g.rules[n]? = some q ∧ { q with id := q.id + 1 } = r := by
          simpa [Grammar.augmented] using hr
        show q.id + 1 = ((n + 1 : Nat) : Int)
        rw [hg.numbered n q hq]
        rfl
  · intro s hs
    rcases hs with hs | hs
    · exact hg.declarable s (Or.inl hs)
    · rcases List.mem_cons.mp hs with rfl | hs
      · exact isDeclarable_freshStart g
      · exact hg.declarable s (Or.inr hs)
  · intro r hr
    rcases mem_rules_augmented.mp hr with rfl | ⟨q, hq, rfl⟩
    · exact List.mem_cons_self
    · exact List.mem_cons_of_mem _ (hg.lhs_mem q hq)
  · intro r hr s hs
    rcases mem_rules_augmented.mp hr with rfl | ⟨q, hq, rfl⟩
    · obtain rfl := List.mem_singleton.mp hs
      exact Or.inr (List.mem_cons_of_mem _ hg.start_mem)
    · exact (hg.body_mem q hq s hs).imp id (List.mem_cons_of_mem _)

/-- An augmented grammar is planted at the old start symbol. -/
theorem Checked.planted_augmented {g : Grammar} (hg : g.Checked) : g.augmented.Planted g.start := by
  obtain ⟨hft, hfn⟩ := g.freshStart_fresh
  refine { hg.augmented with root := rfl, root_only := ?_, start_unused := ?_ }
  · intro r hr hlhs
    rcases mem_rules_augmented.mp hr with rfl | ⟨q, hq, rfl⟩
    · rfl
    · exact absurd (hg.lhs_mem q hq) (by rw [show q.lhs = g.freshStart from hlhs]; exact hfn)
  · -- old bodies have declared symbols only
    intro r hr hs
    rcases mem_rules_augmented.mp hr with rfl | ⟨q, hq, rfl⟩
    · have heq : g.freshStart = g.start := List.mem_singleton.mp hs
      exact hfn (heq ▸ hg.start_mem)
    · rcases hg.body_mem q hq _ hs with h | h
      · exact hft h
      · exact hfn h

/-- Augmentation keeps grammars well-formed and roots them at the old start
    symbol. -/
theorem WellFormed.rooted_augmented {g : Grammar} (hg : g.WellFormed) :
    g.augmented.Rooted g.start := by
  obtain ⟨hft, -⟩ := g.freshStart_fresh
  refine { hg.toChecked.planted_augmented with disjoint := ?_ }
  intro s hs hn
  rcases List.mem_cons.mp hn with rfl | hn
  · exact hft hs
  · exact hg.disjoint s hs hn

/-! ## Made grammars -/

/-- The grammars that come out of `assemble`, and their augmentations. -/
inductive Made : Grammar → Prop where
  | assembled {name : String} {start : Symbol} {terminals nonterminals : List Symbol}
      {rules : List (Option Production)} {g : Grammar}
      (h : assemble name start terminals nonterminals rules = .ok g) : Made g
  | augmented {g g' : Grammar} (hg : Made g) (h : g.augment = .ok g') : Made g'

/-- A made grammar is checked and has a rule 0. -/
theorem Made.checked {g : Grammar} (hg : g.Made) : g.Checked ∧ g.rules ≠ [] := by
  induction hg with
  | assembled h =>
      obtain ⟨hchecked, -, hne⟩ := assemble_checked h
      exact ⟨hchecked, hne⟩
  | augmented _ h ih =>
      rw [augment] at h
      split at h
      · exact nomatch h
      · obtain rfl := Except.ok.inj h
        exact ⟨ih.1.augmented, List.cons_ne_nil _ _⟩

/-- A made grammar that is augmented is planted at the start symbol that it had
    before. -/
theorem Made.planted {g : Grammar} (hg : g.Made) (haugmented : g.isAugmented = true) :
    g.Planted g.baseStart := by
  cases hg with
  | assembled h =>
      obtain ⟨-, hinner, -⟩ := assemble_checked h
      rw [isAugmented, hinner] at haugmented
      cases haugmented
  | @augmented g _ hg h =>
      obtain ⟨hchecked, hne⟩ := hg.checked
      obtain rfl := Except.ok.inj ((augment_eq hne).symm.trans h)
      exact hchecked.planted_augmented

end Grammar

end ShiftReduce
