import ShiftReduce.Compilation
import ShiftReduce.Proofs.Grammar.Derivation

/-! # Naming — what a grammar is called makes no difference

    A grammar under another name has the same symbols and the same rules.  So it
    derives the same words, and its compilation is the same one under the other
    name (`Compilation.compile_named`): the analysis, the automaton and the tables
    read everything of a grammar but its name. -/

namespace ShiftReduce

namespace Grammar

/-- The grammar under another name. -/
def named (g : Grammar) (name : String) : Grammar :=
  { g with name }

/-- The same grammar up to its name: symbols and rules, but nothing is said about
    whether one of the two has been augmented. -/
structure SameContent (g h : Grammar) : Prop where
  start : g.start = h.start
  terminals : g.terminals = h.terminals
  nonterminals : g.nonterminals = h.nonterminals
  rules : g.rules = h.rules

theorem sameContent_iff {g h : Grammar} : g.SameContent h ↔ g.start = h.start ∧
    g.terminals = h.terminals ∧ g.nonterminals = h.nonterminals ∧ g.rules = h.rules :=
  ⟨fun ⟨a, b, c, d⟩ => ⟨a, b, c, d⟩, fun ⟨a, b, c, d⟩ => ⟨a, b, c, d⟩⟩

instance (g h : Grammar) : Decidable (g.SameContent h) :=
  decidable_of_iff' _ sameContent_iff

/-- Grammars with the same content differ in the name and in what they know about having
    been augmented. -/
theorem SameContent.eq_with {g h : Grammar} (hsame : g.SameContent h) :
    g = { h with name := g.name, innerStart := g.innerStart } := by
  obtain ⟨hstart, hterminals, hnonterminals, hrules⟩ := hsame
  cases g
  cases h
  simp_all

/-- Where that agrees, too, one is the other under its name. -/
theorem SameContent.eq_named {g h : Grammar} (hsame : g.SameContent h)
    (hinner : g.innerStart = h.innerStart) : g = h.named g.name := by
  have hg := hsame.eq_with
  rw [hinner] at hg
  exact hg

/-- The fingerprint is one of the content. -/
theorem SameContent.fingerprint_eq {g h : Grammar} (hsame : g.SameContent h) :
    g.fingerprint = h.fingerprint := by
  rw [hsame.eq_with]
  rfl

variable (g : Grammar) (name : String)

/-- The name of a grammar is none of its symbols, so the same primes are appended. -/
theorem primed_named (fuel : Nat) (s : Symbol) :
    (g.named name).primed fuel s = g.primed fuel s := by
  induction fuel generalizing s with
  | zero => rfl
  | succ fuel ih =>
      rw [primed, primed, ih]
      rfl

/-- Augmenting keeps the name. -/
theorem augmented_named : (g.named name).augmented = g.augmented.named name := by
  have hfresh : (g.named name).freshStart = g.freshStart := g.primed_named name _ _
  rw [augmented, hfresh]
  rfl

/-- Whether there is something to augment does not depend on the name. -/
theorem ensureAugmented_named :
    (g.named name).ensureAugmented = g.ensureAugmented.map fun h => h.named name := by
  rw [ensureAugmented, ensureAugmented, augmented_named]
  show (if g.rules.isEmpty then _ else if g.isAugmented then _ else _) = _
  split
  · rfl
  · split
    · rfl
    · rfl

/-- The name is no part of what is checked. -/
theorem assemble_named {start : Symbol} {terminals nonterminals : List Symbol}
    {rules : List (Option Production)} {g : Grammar} {old : String}
    (h : assemble old start terminals nonterminals rules = .ok g) (name : String) :
    assemble name start terminals nonterminals rules = .ok (g.named name) := by
  rw [assemble] at h ⊢
  by_cases hempty : rules.isEmpty = true
  · rw [if_pos hempty] at h
    cases h
  · rw [if_neg hempty] at h ⊢
    cases harrange : arrange? rules with
    | none =>
        rw [harrange] at h
        cases h
    | some ordered =>
        rw [harrange] at h
        dsimp only at h ⊢
        have hdefect : defect? { name, start, terminals, nonterminals, rules := ordered }
            = defect? { name := old, start, terminals, nonterminals, rules := ordered } := rfl
        rw [hdefect]
        split at h
        · cases h
        · obtain rfl := Except.ok.inj h
          rfl

/-- What is derived under one name is derived under the other. -/
theorem Derives.of_named {g : Grammar} {name : String} {u v : List Symbol}
    (h : (g.named name).Derives u v) : g.Derives u v := by
  refine Relation.ReflTransGen.mono ?_ _ _ h
  rintro _ _ ⟨a, b, r, hr⟩
  exact .step a b r hr

/-- The sentences are the same under every name. -/
theorem Sentence.of_named {g : Grammar} {name : String} {w : List Symbol}
    (h : (g.named name).Sentence w) : g.Sentence w :=
  ⟨h.1.of_named, h.2⟩

end Grammar

/-! ## Everything that is derived from a grammar -/

/-- The analysis under another name. -/
def Analysis.named (a : Analysis) (name : String) : Analysis :=
  { a with grammar := a.grammar.named name }

/-- A body contributes the same under every name. -/
theorem Follow.applyBody_named (g : Grammar) (name : String) (first : SymbolMap) (lhs : Symbol)
    (body : List Symbol) (m : SymbolMap) :
    applyBody (g.named name) first lhs body m = applyBody g first lhs body m := by
  induction body generalizing m with
  | nil => rfl
  | cons s rest ih =>
      rw [applyBody, applyBody, ih]
      rfl

/-- So the loop gives the same sets. -/
theorem Follow.sets_named (g : Grammar) (name : String) (first : SymbolMap) :
    sets (g.named name) first = sets g first := by
  have hround : round (g.named name) first = round g first := by
    funext m
    rw [round, round]
    simp only [applyBody_named]
    rfl
  rw [sets, hround]
  rfl

/-- The analysis passes the name on and does not look at it. -/
theorem Analysis.ofGrammar_named (g : Grammar) (name : String) :
    Analysis.ofGrammar (g.named name) = (Analysis.ofGrammar g).named name := by
  rw [Analysis.ofGrammar, Follow.sets_named]
  rfl

namespace Automaton

/-- The automaton under another name. -/
def named (a : Automaton) (name : String) : Automaton :=
  { a with grammar := a.grammar.named name }

/-- The survey visits the same sets in the same order. -/
theorem complete_named (g : Grammar) (name : String) (symbols : List Symbol) (fuel : Nat)
    (v : Survey) : v.complete (g.named name) symbols fuel = v.complete g symbols fuel := by
  induction fuel generalizing v with
  | zero => rfl
  | succ fuel ih =>
      have hvisit : ∀ s, v.visit (g.named name) symbols s = v.visit g symbols s := fun _ => rfl
      rw [Survey.complete, Survey.complete]
      split
      · rfl
      · rw [hvisit, ih]

/-- The automaton passes the name on and does not look at it. -/
theorem build_named (g : Grammar) (name : String) :
    build (g.named name) = (build g).named name := by
  have hsurvey : survey (g.named name) = survey g := complete_named g name _ _ _
  rw [build, hsurvey]
  rfl

end Automaton

/-- A table does not even have a name. -/
theorem Table.build_named (a : Analysis) (m : Automaton) (name : String) :
    Table.build (a.named name) (m.named name) = Table.build a m := rfl

namespace Compilation

/-- The compilation under another name. -/
def named (c : Compilation) (name : String) : Compilation :=
  { c with analysis := c.analysis.named name, automaton := c.automaton.named name }

/-- Everything that a compilation is made of passes the name on. -/
theorem ofAnalysis_named (a : Analysis) (name : String) :
    ofAnalysis (a.named name) = (ofAnalysis a).named name := by
  have hbuild : Automaton.build (a.named name).grammar = (Automaton.build a.grammar).named name :=
    Automaton.build_named a.grammar name
  rw [ofAnalysis, hbuild, Table.build_named]
  rfl

/-- A grammar under another name has its compilation under that name. -/
theorem compile_named (g : Grammar) (name : String) :
    compile (g.named name) = (compile g).map fun c => c.named name := by
  rw [compile, compile, Analysis.make, Analysis.make, Grammar.ensureAugmented_named]
  cases g.ensureAugmented with
  | error e => rfl
  | ok h =>
      show Except.ok (ofAnalysis (Analysis.ofGrammar (h.named name))) = _
      rw [Analysis.ofGrammar_named, ofAnalysis_named]
      rfl

end Compilation

end ShiftReduce
