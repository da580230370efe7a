import ShiftReduce.Proofs.Parser.Outcome

/-! # Termination — without conflicts no reductions go on for ever

    Only reductions do not consume input, and every reduction makes a tree on
    the stack larger.  But the trees on a stack are part of a derivation tree:
    if every nonterminal derives a word, then some word `z` completes what has
    been consumed, `x`, to a sentence.  On `x ++ z` the parser builds the same
    trees, and a table without conflicts leads it to acceptance.  Up to the
    trees in question it cannot know more of `z` than its first symbol, so for
    each of the finitely many first symbols one accepting run bounds the size of
    all trees for `x`. -/

namespace ShiftReduce

namespace Simulator

variable {g : Grammar} {s : Symbol}

namespace Completed

variable {x z : List Symbol} {f : Forest}

/-- On the completed word, a run without conflicts builds the trees and has the
    completion before it. -/
theorem exists_run (h : Table.Tabular g s) (hfree : (Table.ofGrammar g).conflicts = [])
    (hf : Completed g s x f z) (last : Token) :
    ∃ steps d, Runs g (Table.ofGrammar g) (x.length + f.interiors)
        (.fresh (spell x ++ spell (z ++ [Symbol.endMarker])) last) steps d ∧
      d.rest = spell (z ++ [Symbol.endMarker]) := by
  obtain ⟨stack, k, hstacked⟩ := hf.stacked
  have htrees := hstacked.isDerivation
  have hretraces : Retraces g s f :=
    retraces_forest h.toWellFormed htrees fun n hn => retraces_tree h hfree (htrees n hn)
  have hclosed : ∃ e, (spell x ++ spell (z ++ [Symbol.endMarker])).getLast? = some e ∧
      e.symbol = Symbol.endMarker := by
    rw [spell_append, ← List.append_assoc]
    exact ⟨{ symbol := Symbol.endMarker, lexeme := [], span := Span.zero }, by simp [spell], rfl⟩
  obtain ⟨steps, d, -, hruns, -, -, -, hrest⟩ :=
    hretraces (.fresh (spell x ++ spell (z ++ [Symbol.endMarker])) last) 0 k [] z (spell x) _
      (legal_fresh g last hclosed) hstacked.walk (by simpa using hf.derives) hf.isWord rfl
      (by simp [hf.word]) (symbol_spell _)
  rw [hf.word] at hruns
  exact ⟨steps, d, hruns, hrest⟩

end Completed

/-- Trees with completions that begin alike have a common bound. -/
theorem exists_bound_of_first (h : Table.Tabular g s) (hfree : (Table.ofGrammar g).conflicts = [])
    (x : List Symbol) (b : Symbol) :
    ∃ bound, ∀ (f : Forest) (z : List Symbol), Completed g s x f z →
      z.headD Symbol.endMarker = b → x.length + f.interiors ≤ bound := by
  by_cases hsome : ∃ f₀ z₀, Completed g s x f₀ z₀ ∧ z₀.headD Symbol.endMarker = b
  · obtain ⟨f₀, z₀, hf₀, hb₀⟩ := hsome
    obtain ⟨hder, hword⟩ := hf₀.derives_word h
    let last : Token := { symbol := Symbol.endMarker, lexeme := [], span := Span.zero }
    obtain ⟨rounds, steps₀, d₀, hruns₀, hend₀⟩ := exists_accepting_run_of_derives h hfree hder hword
      (spell (x ++ z₀)) last (symbol_spell _) rfl last
    refine ⟨rounds, ?_⟩
    intro f z hf hb
    obtain ⟨steps, d, hruns, hrest⟩ := hf.exists_run h hfree last
    -- both inputs begin with `x` and `b`
    have hsplit : ∀ w : List Symbol, w.headD Symbol.endMarker = b →
        ∃ v, w ++ [Symbol.endMarker] = b :: v := by
      rintro (- | ⟨y, w⟩) rfl
      · exact ⟨[], rfl⟩
      · exact ⟨w ++ [Symbol.endMarker], rfl⟩
    obtain ⟨v, hv⟩ := hsplit z hb
    obtain ⟨v₀, hv₀⟩ := hsplit z₀ hb₀
    have hinput : spell (x ++ z₀) ++ [last] = (spell x ++ spell [b]) ++ spell v₀ := by
      have hlast : [last] = spell [Symbol.endMarker] := rfl
      rw [hlast, ← spell_append, ← spell_append, ← spell_append, List.append_assoc, hv₀,
        List.append_assoc]
      rfl
    have hinput' : spell x ++ spell (z ++ [Symbol.endMarker])
        = (spell x ++ spell [b]) ++ spell v := by
      rw [hv, List.append_assoc]
      rfl
    obtain ⟨steps', hruns'⟩ := hruns.withInput (spell x ++ spell [b]) (spell [b]) hinput'
      (by rw [hrest, hv]; rfl) (by simp [spell]) (spell v₀) last
    rw [← hinput] at hruns'
    exact hruns'.le_of_ends hruns₀ hend₀
  · refine ⟨0, ?_⟩
    intro f z hf hb
    exact absurd ⟨f, z, hf, hb⟩ hsome

/-- The trees on all stacks for one word have a common bound. -/
theorem exists_bound_of_word (h : Table.Tabular g s) (hfree : (Table.ofGrammar g).conflicts = [])
    (hp : g.Productive) (x : List Symbol) :
    ∃ bound, ∀ (stack : List Frame) (k : Nat) (f : Forest), Stacked g stack k f → f.word = x →
      x.length + f.interiors ≤ bound := by
  choose bound hbound using exists_bound_of_first h hfree x
  refine ⟨((g.terminals ++ [Symbol.endMarker]).map bound).max?.getD 0, ?_⟩
  rintro stack k f hf rfl
  obtain ⟨z, hz⟩ := hf.exists_completed h hp
  refine Nat.le_trans (hbound _ f z hz rfl) (List.le_max?_getD_of_mem ?_)
  exact List.mem_map_of_mem (headD_mem_columns hz.isWord)

/-- All runs on one input have a common bound. -/
theorem exists_bound_of_input (h : Table.Tabular g s) (hfree : (Table.ofGrammar g).conflicts = [])
    (hp : g.Productive) (input : List Symbol) :
    ∃ bound, ∀ (stack : List Frame) (k : Nat) (f : Forest), Stacked g stack k f →
      f.word <+: input → f.word.length + f.interiors ≤ bound := by
  choose bound hbound using exists_bound_of_word h hfree hp
  refine ⟨(input.inits.map bound).max?.getD 0, ?_⟩
  intro stack k f hf hpre
  refine Nat.le_trans (hbound f.word stack k f hf rfl) (List.le_max?_getD_of_mem ?_)
  exact List.mem_map_of_mem ((List.mem_inits _ _).mpr hpre)

end Simulator

open Simulator in
/-- **Termination.**  If the table has no conflicts and every nonterminal derives
    a word, then for every input there is a number of rounds from which on the
    parse ends with acceptance or with a syntax error. -/
theorem Compiled.exists_sufficient_limit {g : Grammar} {c : Compilation} (h : Compiled g c)
    (hfree : c.table.hasConflicts = false) (hp : g.Productive) (tokens : List Token) :
    ∃ enough, ∀ limit ≥ enough, (c.parse g limit tokens).lastKind = .accept ∨
      (c.parse g limit tokens).lastKind = .syntaxError := by
  have hg := h.tabular
  obtain ⟨bound, hbound⟩ := exists_bound_of_input hg (h.conflicts_eq_nil hfree)
    (h.wellFormed.productive_augmented hp) ((closeTokens tokens).map Token.symbol)
  refine ⟨bound + 1, ?_⟩
  intro limit hlimit
  obtain ⟨last, hparse⟩ := h.parse_eq limit tokens
  have houtcome := play_outcome hg limit last (closeTokens_closed tokens)
  rw [← hparse] at houtcome
  generalize c.parse g limit tokens = result at houtcome
  cases houtcome with
  | limit hruns hd hprogress =>
      -- as many rounds as the limit would be more than the trees allow
      obtain ⟨-, hinput, hrounds⟩ := hprogress.of_fresh
      have hle := hbound _ _ _ hd.stacked ⟨_, hinput⟩
      omega
  | error hruns hd hprogress hn hturn => exact Or.inr (by simp [Result.lastKind, Result.last?]; rfl)
  | accept hruns hd hprogress hn hlabels hend =>
      exact Or.inl (by simp [Result.lastKind, Result.last?]; rfl)

/-- In the small grammar a parse of `b` ends, given rounds enough. -/
theorem exists_sufficient_limit_sample :
    ∃ enough, ∀ limit ≥ enough,
      (sampleCompilation.parse sampleGrammar limit [⟨"b", [98], ⟨0, 1⟩⟩]).lastKind = .accept ∨
      (sampleCompilation.parse sampleGrammar limit [⟨"b", [98], ⟨0, 1⟩⟩]).lastKind
        = .syntaxError :=
  compiled_sample.exists_sufficient_limit (by decide +kernel) productive_sample
    [⟨"b", [98], ⟨0, 1⟩⟩]

end ShiftReduce
