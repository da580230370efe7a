import ShiftReduce.Proofs.Automaton.Numbering
import ShiftReduce.Proofs.Grammar.Assembly

/-! # Offers — which parts make a grammar

    A grammar is assembled from two alphabets, a start symbol and rules that are
    offered in any order, some of which may be missing.  `Fit` says which of these
    offers go together, without the checks: the numbers of the rules are a
    permutation of those from 0 on, the declared symbols are no reserved ones, and
    every rule is over them.  Exactly the offers that fit are accepted, in whatever
    order, and the grammar has what was offered (`assemble_exact`). -/

namespace ShiftReduce

namespace Grammar

/-- A rule as it is offered, with its right side as it is written. -/
structure Offer where
  id : Int
  lhs : Symbol
  rhs : List Symbol
  deriving DecidableEq, Repr

/-- The rule that is offered. -/
def Offer.production (o : Offer) : Production :=
  .ofWritten o.id o.lhs o.rhs

/-- Parts of a grammar that go together. -/
structure Fit (start : Symbol) (terminals nonterminals : List Symbol)
    (offers : List (Option Offer)) : Prop where
  present : none ∉ offers
  numbers : (offers.filterMap (Option.map Offer.id)).Perm
    ((List.range offers.length).map Int.ofNat)
  declarable : ∀ s, s ∈ terminals ∨ s ∈ nonterminals →
    s ≠ Symbol.epsilon ∧ s ≠ Symbol.endMarker ∧ s ≠ Symbol.unmatched ∧ s ≠ ""
  start_mem : start ∈ nonterminals
  lhs_mem : ∀ o, some o ∈ offers → o.lhs ∈ nonterminals
  rhs : ∀ o, some o ∈ offers → o.rhs = [Symbol.epsilon] ∨
    ∀ s ∈ o.rhs, s ≠ Symbol.epsilon ∧ (s ∈ terminals ∨ s ∈ nonterminals)

/-- A grammar that has what was offered: its rules are under their numbers, and its
    symbols are the declared ones, each once. -/
structure Has (g : Grammar) (name : String) (start : Symbol) (terminals nonterminals : List Symbol)
    (offers : List (Option Offer)) : Prop where
  name_eq : g.name = name
  start_eq : g.start = start
  innerStart_eq : g.innerStart = none
  terminals_eq : g.terminals = terminals
  nonterminals_eq : g.nonterminals = nonterminals
  size_eq : g.size = offers.length
  rule?_iff : ∀ (i : Int) (r : Production),
    g.rule? i = some r ↔ ∃ o, some o ∈ offers ∧ o.id = i ∧ o.production = r
  nodup_symbols : g.symbols.Nodup
  mem_symbols : ∀ s, s ∈ g.symbols ↔ s ∈ terminals ∨ s ∈ nonterminals

variable {name : String} {start : Symbol} {terminals nonterminals : List Symbol}
  {rules : List (Option Production)} {offers : List (Option Offer)} {g : Grammar}

/-! ## What assembling asks for -/

/-- Without rules there is an empty grammar, and with rules there is not. -/
theorem assemble_eq_empty_iff :
    assemble name start terminals nonterminals rules = .error .empty ↔ rules = [] := by
  constructor
  · intro h
    by_contra hne
    rw [assemble, if_neg (by simpa using hne)] at h
    split at h
    · cases h
    · dsimp only at h
      split at h <;> cases h
  · rintro rfl
    rfl

/-- There are no errors but these two. -/
theorem assemble_cases :
    assemble name start terminals nonterminals rules = .error .empty ∨
      (∃ d, assemble name start terminals nonterminals rules = .error (.malformed d)) ∨
      ∃ g, assemble name start terminals nonterminals rules = .ok g := by
  rw [assemble]
  split
  · exact Or.inl rfl
  · split
    · exact Or.inr (Or.inl ⟨_, rfl⟩)
    · dsimp only
      split
      · exact Or.inr (Or.inl ⟨_, rfl⟩)
      · exact Or.inr (Or.inr ⟨_, rfl⟩)

/-- The order in which rules are offered does not matter, not even for errors. -/
theorem assemble_congr {other : List (Option Production)} (h : rules.Perm other) :
    assemble name start terminals nonterminals rules
      = assemble name start terminals nonterminals other := by
  have hempty : rules.isEmpty = other.isEmpty := by
    rw [Bool.eq_iff_iff, List.isEmpty_iff, List.isEmpty_iff]
    exact ⟨fun hnil => (hnil ▸ h).nil_eq.symm, fun hnil => (hnil ▸ h).eq_nil⟩
  rw [assemble, assemble, hempty, arrange?_congr h]

/-- Assembled are the checked grammars that have the given parts. -/
theorem assemble_eq_ok_iff :
    assemble name start terminals nonterminals rules = .ok g ↔
      g.Checked ∧ g.rules ≠ [] ∧ rules.Perm (g.rules.map some) ∧
        g = { name, start, terminals, nonterminals, rules := g.rules } := by
  constructor
  · intro h
    obtain ⟨hchecked, -, hne⟩ := assemble_checked h
    refine ⟨hchecked, hne, ?_⟩
    rw [assemble] at h
    split at h
    · cases h
    · split at h
      · cases h
      · rename_i ordered harrange
        dsimp only at h
        split at h
        · cases h
        · obtain rfl := Except.ok.inj h
          exact ⟨(perm_of_arranged harrange).1, rfl⟩
  · rintro ⟨hchecked, hne, hperm, hparts⟩
    have hassemble := hchecked.assemble_eq (by rw [hparts]) hne
    -- in the order of their numbers the rules are those of the grammar
    rw [assemble_congr hperm]
    rw [hparts] at hassemble ⊢
    exact hassemble

/-! ## Offers that fit -/

/-- A grammar may declare every name but the three reserved ones and the empty one. -/
theorem isDeclarable_iff {s : Symbol} : s.isDeclarable = true ↔
    s ≠ Symbol.epsilon ∧ s ≠ Symbol.endMarker ∧ s ≠ Symbol.unmatched ∧ s ≠ "" := by
  simp [Symbol.isDeclarable, Symbol.isReserved, and_assoc]

/-- A rule that is there has come from an offer. -/
theorem mem_productions {r : Production} :
    some r ∈ offers.map (Option.map Offer.production) ↔
      ∃ o, some o ∈ offers ∧ o.production = r := by
  constructor
  · intro h
    obtain ⟨x, hx, hr⟩ := List.mem_map.mp h
    obtain ⟨o, rfl, ho⟩ := Option.map_eq_some_iff.mp hr
    exact ⟨o, hx, ho⟩
  · rintro ⟨o, ho, rfl⟩
    exact List.mem_map.mpr ⟨some o, ho, rfl⟩

/-- A body that is not empty is the right side as it is written. -/
theorem Offer.body_eq (o : Offer) :
    o.production.body = if o.rhs = [Symbol.epsilon] then [] else o.rhs := rfl

/-- Offered rules can be arranged if and only if none is missing and their numbers
    are those from 0 on. -/
theorem exists_arranged_offers :
    (∃ ordered, arrange? (offers.map (Option.map Offer.production)) = some ordered) ↔
      none ∉ offers ∧ (offers.filterMap (Option.map Offer.id)).Perm
        ((List.range offers.length).map Int.ofNat) := by
  have hids : (offers.map (Option.map Offer.production)).filterMap (Option.map Production.id)
      = offers.filterMap (Option.map Offer.id) := by
    rw [List.filterMap_map]
    congr 1
    funext o
    cases o with
    | none => rfl
    | some o => rfl
  rw [exists_arranged_iff, hids, List.length_map]
  simp

/-- The rules of offers that fit pass all checks. -/
theorem Fit.checked (h : Fit start terminals nonterminals offers) {ordered : List Production}
    (hperm : (offers.map (Option.map Offer.production)).Perm (ordered.map some))
    (hnumbered : Numbered ordered) :
    Checked { name, start, terminals, nonterminals, rules := ordered } := by
  have hoffered : ∀ r ∈ ordered, ∃ o, some o ∈ offers ∧ o.production = r := fun r hr =>
    mem_productions.mp (hperm.mem_iff.mpr (List.mem_map_of_mem hr))
  refine
    { numbered := hnumbered
      declarable := fun s hs => isDeclarable_iff.mpr (h.declarable s hs)
      start_mem := h.start_mem
      lhs_mem := ?_
      body_mem := ?_ }
  · intro r hr
    obtain ⟨o, ho, rfl⟩ := hoffered r hr
    exact h.lhs_mem o ho
  · intro r hr s hs
    obtain ⟨o, ho, rfl⟩ := hoffered r hr
    rw [o.body_eq] at hs
    split at hs
    · cases hs
    · rename_i hne
      exact ((h.rhs o ho).resolve_left hne s hs).2

/-- The rules of a checked grammar fit. -/
theorem Checked.fit (hg : g.Checked)
    (hperm : (offers.map (Option.map Offer.production)).Perm (g.rules.map some)) :
    Fit g.start g.terminals g.nonterminals offers := by
  obtain ⟨hpresent, hnumbers⟩ := exists_arranged_offers.mp
    ⟨g.rules, arrange?_eq_some_iff.mpr ⟨hperm, hg.numbered⟩⟩
  have hrule : ∀ o, some o ∈ offers → o.production ∈ g.rules := by
    intro o ho
    have hmem := hperm.mem_iff.mp (mem_productions.mpr ⟨o, ho, rfl⟩)
    simpa using hmem
  refine
    { present := hpresent
      numbers := hnumbers
      declarable := fun s hs => isDeclarable_iff.mp (hg.declarable s hs)
      start_mem := hg.start_mem
      lhs_mem := fun o ho => hg.lhs_mem _ (hrule o ho)
      rhs := ?_ }
  intro o ho
  by_cases heps : o.rhs = [Symbol.epsilon]
  · exact Or.inl heps
  · refine Or.inr fun s hs => ?_
    have hmem := hg.body_mem _ (hrule o ho) s (by rw [o.body_eq, if_neg heps]; exact hs)
    exact ⟨(hg.ne_of_mem hmem).1, hmem⟩

/-- Offers make a grammar just if there are any and they fit. -/
theorem exists_assembled_iff :
    (∃ g, assemble name start terminals nonterminals (offers.map (Option.map Offer.production))
        = .ok g) ↔
      offers ≠ [] ∧ Fit start terminals nonterminals offers := by
  constructor
  · rintro ⟨g, h⟩
    obtain ⟨hchecked, hne, hperm, hparts⟩ := assemble_eq_ok_iff.mp h
    refine ⟨?_, ?_⟩
    · rintro rfl
      exact hne (by simpa using hperm.nil_eq)
    · have hfit := hchecked.fit hperm
      rw [hparts] at hfit
      exact hfit
  · rintro ⟨hne, hfit⟩
    obtain ⟨ordered, harrange⟩ := exists_arranged_offers.mpr ⟨hfit.present, hfit.numbers⟩
    obtain ⟨hperm, hnumbered⟩ := arrange?_eq_some_iff.mp harrange
    refine ⟨_, assemble_eq_ok_iff.mpr ⟨hfit.checked hperm hnumbered, ?_, hperm, rfl⟩⟩
    rintro rfl
    exact hne (by simpa using hperm)

/-! ## What is assembled -/

/-- The grammar that they make has the name, the start symbol, the alphabets and the
    rules that were offered. -/
theorem has_of_assembled (h : assemble name start terminals nonterminals
      (offers.map (Option.map Offer.production)) = .ok g) :
    g.Has name start terminals nonterminals offers := by
  obtain ⟨hchecked, -, hperm, hparts⟩ := assemble_eq_ok_iff.mp h
  have hrule : ∀ r, r ∈ g.rules ↔ ∃ o, some o ∈ offers ∧ o.production = r := by
    intro r
    rw [← mem_productions, hperm.mem_iff]
    simp
  have hlength := hperm.length_eq
  rw [List.length_map, List.length_map] at hlength
  rw [hparts] at hchecked hrule hlength ⊢
  refine
    { name_eq := rfl, start_eq := rfl, innerStart_eq := rfl, terminals_eq := rfl
      nonterminals_eq := rfl, size_eq := hlength.symm, rule?_iff := ?_
      nodup_symbols := Automaton.nodup_symbols _
      mem_symbols := fun s =>
        ⟨Automaton.declared_of_mem_symbols hchecked, Automaton.mem_symbols hchecked⟩ }
  -- a rule is found under its number, and nothing is found under any other
  intro i r
  constructor
  · intro hr
    obtain ⟨o, ho, rfl⟩ := (hrule r).mp (mem_of_rule? hr)
    exact ⟨o, ho, hchecked.id_of_rule? hr, rfl⟩
  · rintro ⟨o, ho, rfl, rfl⟩
    exact hchecked.rule?_id ((hrule _).mpr ⟨o, ho, rfl⟩)

/-- **Exactly the parts that go together make a grammar.**  Without rules there is an
    empty grammar; otherwise parts are accepted if and only if they fit, and are
    malformed if not.  The answer is the same for the rules in any other order, and an
    accepted grammar has what was offered. -/
theorem assemble_exact (name : String) (start : Symbol) (terminals nonterminals : List Symbol)
    (offers : List (Option Offer)) :
    let answer (offers : List (Option Offer)) :=
      assemble name start terminals nonterminals (offers.map (Option.map Offer.production))
    (answer offers = .error .empty ↔ offers = []) ∧
      ((∃ g, answer offers = .ok g) ↔ offers ≠ [] ∧ Fit start terminals nonterminals offers) ∧
      ((∃ d, answer offers = .error (.malformed d)) ↔
        offers ≠ [] ∧ ¬ Fit start terminals nonterminals offers) ∧
      (∀ other, offers.Perm other → answer other = answer offers) ∧
      ∀ g, answer offers = .ok g → g.Has name start terminals nonterminals offers := by
  intro answer
  have hempty : answer offers = .error .empty ↔ offers = [] := by
    rw [assemble_eq_empty_iff, List.map_eq_nil_iff]
  have hok : (∃ g, answer offers = .ok g) ↔ offers ≠ [] ∧ Fit start terminals nonterminals offers :=
    exists_assembled_iff
  have hmalformed : (∃ d, answer offers = .error (.malformed d)) ↔
      offers ≠ [] ∧ ¬ Fit start terminals nonterminals offers := by
    constructor
    · rintro ⟨d, hd⟩
      have hne : offers ≠ [] := fun hnil => by
        rw [hempty.mpr hnil] at hd
        cases hd
      refine ⟨hne, fun hfit => ?_⟩
      obtain ⟨g, hg⟩ := hok.mpr ⟨hne, hfit⟩
      rw [hg] at hd
      cases hd
    · rintro ⟨hne, hfit⟩
      -- there are three answers, and two of them are settled
      rcases assemble_cases with h | h | h
      · exact absurd (hempty.mp h) hne
      · exact h
      · exact absurd (hok.mp h).2 hfit
  exact ⟨hempty, hok, hmalformed, fun other h => assemble_congr (h.symm.map _),
    fun g => has_of_assembled⟩

end Grammar

end ShiftReduce
