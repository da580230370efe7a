import ShiftReduce.Proofs.Compilation.Naming
import ShiftReduce.Proofs.Parser.StackInvariant
import ShiftReduce.Proofs.Session.Consistency

/-! # Sound sessions — what a patched parse accepts is a sentence

    A session keeps the steps of a parse up to the cursor and puts those of a
    continuation behind them, as often as the user wants.  The steps that are
    kept were chosen under input that is then replaced.  This does no harm,
    because behind each of them there is a stack of derivation trees whose word
    is what has been shifted up to there, whatever came later (`Backed`).  A
    continuation is in lockstep with a run from such a stack, so the steps that
    it adds have stacks of this kind, too, and if it accepts, one tree for the
    start symbol has everything that was shifted as its word. -/

namespace ShiftReduce

namespace Simulator

/-! ## Shifts of traces that look the same -/

/-- The symbol that is seen to be shifted. -/
def Step.Sight.shifted? (v : Step.Sight) : Option Symbol :=
  match v.move with
  | .shift x _ => some x
  | _ => none

/-- What has been shifted can be seen without places and trees. -/
theorem shifted_eq_sights (steps : List Step) :
    shifted steps = (steps.map Step.sight).filterMap Step.Sight.shifted? := by
  rw [shifted, List.filterMap_map]
  refine List.filterMap_congr ?_
  intro st _
  show st.shifted? = st.sight.shifted?
  rw [Step.shifted?, Step.Sight.shifted?, Step.sight]
  cases st.move <;> rfl

/-- So traces that look the same have shifted the same. -/
theorem shifted_congr {steps steps' : List Step}
    (h : steps.map Step.sight = steps'.map Step.sight) : shifted steps = shifted steps' := by
  rw [shifted_eq_sights, h, ← shifted_eq_sights]

/-! ## Legal plays -/

section LegalPlays

variable {g : Grammar} {s : Symbol} {c : Configuration} {k limit : Nat} {f : Forest}

/-- If a legal play accepts, the word of its trees and what it shifts are
    derived. -/
theorem Legal.derives_of_accepted (h : Table.Tabular g s) (hc : Legal g c k f)
    (haccepted : (play g (Table.ofGrammar g) limit limit c []).accepted = true) :
    g.Derives [s]
        (f.word ++ shifted (play g (Table.ofGrammar g) limit limit c []).steps) ∧
      g.IsWord (f.word ++ shifted (play g (Table.ofGrammar g) limit limit c []).steps) := by
  -- a parse that runs into its limit does not accept
  rcases play_cases (g := g) (t := Table.ofGrammar g) limit limit c [] with
    ⟨steps, d, -, hres⟩ | ⟨n, steps, d, later, accepted, final, -, hruns, hend, hres⟩
  · rw [hres] at haccepted
    cases haccepted
  · rw [hres] at haccepted ⊢
    obtain rfl : accepted = true := haccepted
    obtain ⟨l, f', hd, hprogress⟩ := Legal.runs h hruns hc
    have heffect := turn_effect h hd
    rw [hend] at heffect
    generalize hround : Turn.ends later true final = round at heffect
    cases heffect with
    | error => cases (Turn.ends.inj hround).2.1
    | shift => cases hround
    | reduce => cases hround
    | accept hlabels =>
        obtain ⟨rfl, -, -⟩ := Turn.ends.inj hround
        obtain ⟨root, rfl, hroot⟩ := List.map_eq_singleton_iff.mp hlabels
        obtain ⟨hderives, hword⟩ :=
          (hd.stacked.isDerivation root List.mem_cons_self).derives h.toWellFormed
        -- what was on the stack and what was shifted
        -- have gone into the one tree that is left
        have hall : root.word = f.word ++ shifted ([].reverse ++ steps ++ [d.record .accept none]) := by
          have hprogress := hprogress.word
          rw [Forest.word_cons, Forest.word_nil, List.append_nil] at hprogress
          rw [hprogress, List.reverse_nil, List.nil_append, shifted_append]
          exact congrArg (f.word ++ ·) (List.append_nil _).symm
        rw [hroot, hall] at hderives
        rw [hall] at hword
        exact ⟨hderives, hword⟩

end LegalPlays

/-! ## Backed traces -/

/-- A trace, put together from any number of continuations, whose steps are all
    sound.  Behind every shift and goto there is a legal configuration with the
    same checkpoint, whose trees have the shifts up to there as their word; and if
    the trace accepts, its shifts are derived. -/
structure Backed (g : Grammar) (s : Symbol) (steps : List Step) (accepted : Bool) : Prop where
  sound : ∀ st ∈ steps, st.Sound (Automaton.build g)
  legal : ∀ (i : Nat) (st : Step), steps[i]? = some st → st.kind.isResumable = true →
    ∃ (st' : Step) (e : Configuration) (l : Nat) (f : Forest), st'.checkpoint = st.checkpoint ∧
      st'.LeadsTo e ∧ Legal g e l f ∧ f.word = shifted (steps.take (i + 1))
  derives : accepted = true → g.Derives [s] (shifted steps) ∧ g.IsWord (shifted steps)

namespace Backed

variable {g : Grammar} {s : Symbol} {steps : List Step} {accepted : Bool}

/-- A trace without steps is backed. -/
theorem nil (g : Grammar) (s : Symbol) : Backed g s [] false where
  sound := fun st hst => absurd hst List.not_mem_nil
  legal := by
    intro i st hst
    rw [List.getElem?_nil] at hst
    cases hst
  derives := fun h => absurd h Bool.false_ne_true

/-- The beginning of a trace. -/
theorem take (h : Backed g s steps accepted) (n : Nat) : Backed g s (steps.take n) false where
  sound := fun st hst => h.sound st (List.mem_of_mem_take hst)
  legal := by
    intro i st hst hkind
    have hi : i < n := by
      have hlt := (List.getElem?_eq_some_iff.mp hst).1
      rw [List.length_take] at hlt
      omega
    rw [List.getElem?_take_of_lt hi] at hst
    rw [List.take_take, Nat.min_eq_left hi]
    exact h.legal i st hst hkind
  derives := fun h => absurd h Bool.false_ne_true

/-- A trace goes on with steps that look like those of a legal play, if the play
    begins with trees for the shifts of the trace. -/
theorem append (h : Table.Tabular g s) (hsteps : Backed g s steps false) {e : Configuration}
    {l : Nat} {f : Forest} (he : Legal g e l f) (hword : f.word = shifted steps) {limit : Nat}
    {more : Result} (hmore : more.steps.map Step.sight
      = (play g (Table.ofGrammar g) limit limit e []).steps.map Step.sight)
    (haccepted : more.accepted = (play g (Table.ofGrammar g) limit limit e []).accepted) :
    Backed g s (steps ++ more.steps) more.accepted where
  sound := by
    intro st hst
    rcases List.mem_append.mp hst with hst | hst
    · exact hsteps.sound st hst
    · obtain ⟨st', hst', hsight⟩ := Step.exists_same hmore hst
      exact (he.play_sound h limit st' hst').of_sight hsight
  legal := by
    intro i st hst hkind
    by_cases hi : i < steps.length
    · rw [List.getElem?_append_left hi] at hst
      rw [List.take_append_of_le_length hi]
      exact hsteps.legal i st hst hkind
    · -- the step of the play at this place looks the same
      obtain ⟨j, rfl⟩ : ∃ j, i = steps.length + j := ⟨i - steps.length, by omega⟩
      rw [List.getElem?_append_right (Nat.le_add_right _ _), Nat.add_sub_cancel_left] at hst
      have hplace := congrArg (fun sights => sights[j]?) hmore
      simp only [List.getElem?_map, hst, Option.map_some] at hplace
      obtain ⟨st', hst', hsight⟩ := Option.map_eq_some_iff.mp hplace.symm
      rw [← Step.kind_eq hsight] at hkind
      obtain ⟨e', l', f', hleads, he', hword'⟩ := he.exists_behind h hst' hkind
      refine ⟨st', e', l', f', Step.checkpoint_eq hsight, hleads, he', ?_⟩
      have htake : (more.steps.take (j + 1)).map Step.sight
          = ((play g (Table.ofGrammar g) limit limit e []).steps.take (j + 1)).map Step.sight := by
        rw [List.map_take, hmore, List.map_take]
      rw [hword', hword, Nat.add_assoc, List.take_length_add_append, shifted_append,
        shifted_congr htake]
  derives := by
    intro hyes
    rw [haccepted] at hyes
    have hderives := he.derives_of_accepted h hyes
    rw [hword, ← shifted_congr hmore, ← shifted_append] at hderives
    exact hderives

/-- A parse that begins afresh. -/
theorem fresh (h : Table.Tabular g s) (limit : Nat) (tokens : List Token) :
    Backed g s (play g (Table.ofGrammar g) limit limit (.start tokens none) []).steps
      (play g (Table.ofGrammar g) limit limit (.start tokens none) []).accepted := by
  have hlegal : Legal g (.start tokens none) 0 [] := ⟨.bottom, rfl, closeTokens_closed tokens⟩
  exact (nil g s).append h hlegal rfl rfl rfl

/-- A trace up to a shift or a goto, and a parse of other tokens from there. -/
theorem resume (h : Table.Tabular g s) (hsteps : Backed g s steps accepted) {i : Nat} {st : Step}
    (hst : steps[i]? = some st) (hkind : st.kind.isResumable = true) (limit : Nat)
    (tokens : List Token) :
    Backed g s (steps.take (i + 1)
        ++ (play g (Table.ofGrammar g) limit limit (.start tokens (some st.checkpoint)) []).steps)
      (play g (Table.ofGrammar g) limit limit (.start tokens (some st.checkpoint)) []).accepted := by
  obtain ⟨st', e, l, f, hcheckpoint, hleads, he, hword⟩ := hsteps.legal i st hst hkind
  have hlegal : Legal g { e with
      rest := closeTokens tokens
      last := (closeTokens tokens).getLastD (Token.endAt 0) } l f :=
    ⟨he.stacked, he.epsilon, closeTokens_closed tokens⟩
  have hsame := start_same hleads (he.stacked.grown h.toChecked) tokens rfl rfl
  rw [hcheckpoint] at hsame
  obtain ⟨hsights, haccepted⟩ := hsame.play g (Table.ofGrammar g) limit
  exact (hsteps.take (i + 1)).append h hlegal hword hsights haccepted

end Backed

end Simulator

open Simulator

/-! ## Grammars of files -/

/-- A grammar that is read from a text is assembled from disjoint alphabets. -/
theorem Grammar.Bnf.read_disjoint {name text : String} {g : Grammar}
    (h : Bnf.read name text = .ok g) :
    (∃ start terminals nonterminals rules,
      assemble name start terminals nonterminals rules = .ok g) ∧
    ∀ s ∈ g.terminals, s ∉ g.nonterminals := by
  rw [Bnf.read] at h
  cases hlines : State.readLines {} 1 (lines text.toList) with
  | error e =>
      rw [hlines] at h
      cases h
  | ok st =>
      rw [hlines] at h
      have hgrammar : st.grammar name = .ok g := by
        cases hst : st.grammar name with
        | error e =>
            simp only [bind, Except.bind, hst] at h
            cases h
        | ok g' =>
            simp only [bind, Except.bind, hst] at h
            exact congrArg Except.ok (Except.ok.inj h)
      rw [State.grammar] at hgrammar
      split at hgrammar
      · cases hgrammar
      · refine ⟨⟨_, _, _, _, hgrammar⟩, ?_⟩
        obtain ⟨hterminals, hnonterminals⟩ := assemble_alphabets hgrammar
        rw [hterminals, hnonterminals]
        -- terminals are the symbols of bodies that are no head
        intro s hs hmem
        rw [State.terminals, List.mem_eraseDups, List.mem_filter] at hs
        simp [hmem] at hs

/-- A grammar that is loaded has been assembled, with its alphabets apart. -/
theorem loadGrammar_disjoint {read : String → FileReply} {path : String} {g : Grammar}
    (h : loadGrammar read path = .ok g) :
    (∃ name start terminals nonterminals rules,
      Grammar.assemble name start terminals nonterminals rules = .ok g) ∧
    ∀ s ∈ g.terminals, s ∉ g.nonterminals := by
  rw [loadGrammar] at h
  split at h
  case h_6 content hread =>
    split at h
    · rename_i g' hg
      obtain rfl := Except.ok.inj h
      obtain ⟨hassembled, hdisjoint⟩ := Grammar.Bnf.read_disjoint hg
      exact ⟨⟨_, hassembled⟩, hdisjoint⟩
    · cases h
  all_goals cases h

/-- A compilation is one of a grammar, whatever the grammar is called there, and
    there are few enough rules and states for the cells of a table. -/
structure Compilation.IsOf (c : Compilation) (g : Grammar) : Prop where
  compiled : ∃ name, Compilation.compile (g.named name) = .ok c
  rules_fit : g.size < 2147483646
  states_fit : c.automaton.size < 2147483646

/-- A cached compilation of a loaded grammar is its compilation up to the name. -/
theorem Compilation.IsOf.compiled_named {c : Compilation} {g : Grammar} (h : c.IsOf g)
    {read : String → FileReply} {path : String} (hg : loadGrammar read path = .ok g) :
    ∃ name, Compiled (g.named name) c := by
  obtain ⟨⟨old, start, terminals, nonterminals, rules, hassembled⟩, hdisjoint⟩ :=
    loadGrammar_disjoint hg
  obtain ⟨name, hcompiled⟩ := h.compiled
  exact ⟨name, ⟨name, start, terminals, nonterminals, rules, Grammar.assemble_named hassembled name⟩,
    hdisjoint, hcompiled, h.rules_fit, h.states_fit⟩

namespace Session

/-- A session parses with the augmented grammar and its table. -/
theorem parser_parse {g : Grammar} {c : Compilation} (h : Compiled g c) (s : Session)
    (input : Bytes) (resume : Option Checkpoint) :
    (s.parser c).parse input resume
      = play g.augmented (Table.ofGrammar g.augmented) s.limit s.limit
        (.start (Lexer.tokenize g.terminals input) resume) [] := by
  rw [parser, h.grammar_eq, h.table_eq]
  rfl

/-! ## Sessions with a loaded grammar -/

/-- The grammar that a command asks for, if its file can be read. -/
def asked? (read : String → FileReply) (command : Option Command) : Option Grammar :=
  (command.bind Command.path?).bind fun path => (loadGrammar read path).toOption

/-- The compiled grammar of a session is the one that was loaded, and its parse is
    backed by this grammar. -/
def Vouched (s : Session) (loaded : Option Grammar) : Prop :=
  ∀ c, s.compilation = some c → ∃ g name, loaded = some g ∧ Compiled (g.named name) c ∧
    ∀ r, s.result = some r → Backed (g.named name).augmented g.start r.steps r.accepted

/-- A line without a path asks for no grammar. -/
theorem asked?_of_path {read : String → FileReply} {command : Option Command}
    (h : command.bind Command.path? = none) : asked? read command = none := by
  rw [asked?, h]
  rfl

/-- One effect, if what is loaded is compiled as it should be. -/
theorem Vouched.effect {read : String → FileReply} {s after : Session} {command : Option Command}
    {loaded : Option Grammar} (h : s.Vouched loaded) (heffect : Effect read s command after)
    (hown : ∀ g c, asked? read command = some g → after.compilation = some c → c.IsOf g) :
    after.Vouched ((asked? read command).or loaded) := by
  -- what does not load keeps the loaded grammar;
  -- parsing and resuming renew what is vouched for
  cases heffect with
  | nothing hcommand =>
      rw [asked?_of_path hcommand]
      exact h
  | move hcommand =>
      rw [asked?_of_path hcommand]
      exact h
  | @load path g c cache hg hc =>
      have hasked : asked? read (some (.load [path])) = some g := by
        show (loadGrammar read path).toOption = some g
        rw [hg]
        rfl
      rw [hasked]
      rintro _ ⟨⟩
      obtain ⟨name, hcompiled⟩ := (hown g c hasked rfl).compiled_named hg
      exact ⟨g, name, rfl, hcompiled, nofun⟩
  | @parse input c hc =>
      obtain ⟨g, name, hloaded, hcompiled, -⟩ := h c hc
      intro c' hc'
      obtain rfl := Option.some.inj (hc.symm.trans hc')
      refine ⟨g, name, hloaded, hcompiled, ?_⟩
      rintro _ ⟨⟩
      rw [parser_parse hcompiled]
      exact .fresh hcompiled.tabular _ _
  | @resume input c r st hc hr hst hkind =>
      obtain ⟨g, name, hloaded, hcompiled, hbacked⟩ := h c hc
      intro c' hc'
      obtain rfl := Option.some.inj (hc.symm.trans hc')
      refine ⟨g, name, hloaded, hcompiled, ?_⟩
      rintro _ ⟨⟩
      rw [parser_parse hcompiled]
      exact (hbacked r hr).resume hcompiled.tabular hst hkind _ _

/-- The sessions that lines lead to, with the grammar that was loaded last.  A line
    that fails loads nothing; whatever a line loads, the session has the compilation
    of it afterwards. -/
inductive Course : Session → Option Grammar → Prop where
  | fresh (limit : Nat) (cache : Compilation.Cache) : Course { limit, cache } none
  | fails {s : Session} {loaded : Option Grammar} (h : Course s loaded) (read : String → FileReply)
      (line : String) {e : Error} (herror : (s.eval read line).2.error = some e) :
      Course (s.eval read line).1 loaded
  | passes {s : Session} {loaded : Option Grammar} (h : Course s loaded) (read : String → FileReply)
      (line : String) (herror : (s.eval read line).2.error = none)
      (hown : ∀ g c, asked? read (Command.ofLine line) = some g →
        (s.eval read line).1.compilation = some c → c.IsOf g) :
      Course (s.eval read line).1 ((asked? read (Command.ofLine line)).or loaded)

namespace Course

variable {s : Session} {loaded : Option Grammar}

/-- A line that loads nothing. -/
theorem keeps (h : Course s loaded) {read : String → FileReply} {line : String}
    (hline : asked? read (Command.ofLine line) = none)
    (herror : (s.eval read line).2.error = none) : Course (s.eval read line).1 loaded := by
  have hcourse := h.passes read line herror (by
    intro g c hg
    rw [hline] at hg
    cases hg)
  rw [hline] at hcourse
  exact hcourse

/-- Any course of lines leads to a coherent session. -/
theorem coherent (h : Course s loaded) : s.Coherent := by
  induction h with
  | fresh limit cache => exact .fresh limit cache
  | fails _ read line _ ih => exact ih.passes (eval_passes read _ line)
  | passes _ read line _ _ ih => exact ih.passes (eval_passes read _ line)

/-- Any course of lines leads to a session whose grammar and parse are vouched for. -/
theorem vouched (h : Course s loaded) : s.Vouched loaded := by
  induction h with
  | fresh limit cache =>
      intro c hc
      cases hc
  | @fails s loaded _ read line e herror ih =>
      have hpasses := eval_passes read s line
      rw [herror] at hpasses
      rw [hpasses.unchanged]
      exact ih
  | @passes s loaded _ read line herror hown ih =>
      have hpasses := eval_passes read s line
      rw [herror] at hpasses
      generalize (s.eval read line).1 = after at hpasses hown ⊢
      cases hpasses with
      | succeeds heffect => exact ih.effect heffect hown

/-- **Soundness of sessions.**  After any lines, let every load have led to the
    compilation of the grammar in the file.  If the parse of the session is
    accepted, the symbols that its steps shift, those that were kept and those of
    all continuations, are a sentence of the loaded grammar.  None of the steps is
    a goto error or reports a fault other than the limit of rounds. -/
theorem accepted_sound (h : Course s loaded) {r : Result} (hr : s.result = some r) :
    ∃ g, loaded = some g ∧ (r.accepted = true → g.Sentence (shifted r.steps)) ∧
      ∀ st ∈ r.steps, st.kind ≠ .gotoError ∧
        (st.kind = .internalError → ∃ n, st.move = .fault (.iterationLimit n)) := by
  obtain ⟨c, hc⟩ := Option.isSome_iff_exists.mp (h.coherent.compiled r hr)
  obtain ⟨g, name, hloaded, hcompiled, hbacked⟩ := h.vouched c hc
  have hbacked := hbacked r hr
  refine ⟨g, hloaded, ?_, ?_⟩
  · intro haccepted
    have hnamed : (g.named name).Sentence (shifted r.steps) :=
      hcompiled.wellFormed.sentence_iff_augmented.mpr (hbacked.derives haccepted)
    exact hnamed.of_named
  · intro st hst
    refine ⟨(hbacked.sound st hst).no_goto_error, ?_⟩
    intro hkind
    obtain ⟨n, hn, -⟩ := (hbacked.sound st hst).only_limit hkind
    exact ⟨n, hn⟩

end Course

/-- A grammar of letters `a` with a `b` behind them. -/
def lettersGrammar : Grammar :=
  { name := "letters", start := "S", terminals := ["a", "b"], nonterminals := ["S"]
    rules := [{ id := 0, lhs := "S", body := ["a", "S"] }, { id := 1, lhs := "S", body := ["b"] }] }

/-- Every path leads to the grammar. -/
def lettersFile (_ : String) : FileReply :=
  .text "S -> a S | b"

/-- The session after the grammar is loaded. -/
def lettersLoaded : Session :=
  (eval lettersFile { limit := 20 } "load letters.bnf").1

/-- The session after a parse that breaks off behind its first letter. -/
def lettersParsed : Session :=
  (lettersLoaded.eval lettersFile "parse a").1

/-- The session after a move to a step that there is not. -/
def lettersMoved : Session :=
  (lettersParsed.eval lettersFile "step 9").1

/-- The session after the parse goes on from its first letter with the other
    one. -/
def lettersResumed : Session :=
  (lettersMoved.eval lettersFile "resume b").1

/-- The example is a course of lines. -/
theorem course_letters : Course lettersLoaded (some lettersGrammar) := by
  have hasked : asked? lettersFile (Command.ofLine "load letters.bnf") = some lettersGrammar := by
    decide +kernel
  have hloaded : (eval lettersFile { limit := 20 } "load letters.bnf").1.compilation
      = some (Compilation.ofAnalysis (Analysis.ofGrammar lettersGrammar.augmented)) := by
    decide +kernel
  have hcourse := Course.passes (.fresh 20 {}) lettersFile "load letters.bnf" (by decide +kernel) (by
    intro g c hg hc
    obtain rfl := Option.some.inj (hasked.symm.trans hg)
    obtain rfl := Option.some.inj (hloaded.symm.trans hc)
    exact ⟨⟨"letters", rfl⟩, by decide, by decide +kernel⟩)
  rw [hasked] at hcourse
  exact hcourse

/-- The parse that was patched has shifted a sentence, one letter before and one
    behind the cut. -/
theorem accepted_sound_letters :
    ∃ r, lettersResumed.result = some r ∧ r.accepted = true ∧ shifted r.steps = ["a", "b"] ∧
      lettersGrammar.Sentence ["a", "b"] := by
  have hparse : (lettersLoaded.eval lettersFile "parse a").2.error = none := by decide +kernel
  have hstep : (lettersParsed.eval lettersFile "step 9").2.error = some (.noStep 9 2) := by
    decide +kernel
  have hresume : (lettersMoved.eval lettersFile "resume b").2.error = none := by decide +kernel
  have hresult : (lettersResumed.result.map fun r => (r.accepted, shifted r.steps))
      = some (true, ["a", "b"]) := by decide +kernel
  obtain ⟨r, hr, hboth⟩ := Option.map_eq_some_iff.mp hresult
  obtain ⟨haccepted, hshifted⟩ := Prod.mk.inj hboth
  have hparsed : Course lettersParsed (some lettersGrammar) :=
    course_letters.keeps (by decide +kernel) hparse
  have hmoved : Course lettersMoved (some lettersGrammar) :=
    hparsed.fails lettersFile "step 9" hstep
  have hresumed : Course lettersResumed (some lettersGrammar) :=
    hmoved.keeps (by decide +kernel) hresume
  obtain ⟨g, hg, hsound, -⟩ := hresumed.accepted_sound hr
  obtain rfl := Option.some.inj hg
  have hsentence := hsound haccepted
  rw [hshifted] at hsentence
  exact ⟨r, hr, haccepted, hshifted, hsentence⟩

end Session

end ShiftReduce
