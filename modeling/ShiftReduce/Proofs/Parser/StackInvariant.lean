import ShiftReduce.Proofs.Parser.Outcome
import ShiftReduce.Proofs.Simulator.Resume

/-! # The stack invariant — paths of the automaton, afresh and resumed

    At every step of a parse with the compilation of a grammar the stack spells
    a path of the automaton from state 0, and the labels of the trees are the
    symbols of the path.  So a reduction always finds its body and a goto, and
    a run breaks off for no other fault than the limit of rounds.

    A run that begins afresh is legal.  A run behind a checkpoint is not, since
    its stack has leaves where there were derivation trees; but it is in
    lockstep with a run from a legal configuration, namely the one that the
    checkpoint was taken of with the new tokens as its input
    (`Ran.exists_legal`).  What holds at the steps of legal runs and can be seen
    of a step holds for resumed runs, too, however often they are resumed. -/

namespace ShiftReduce

namespace Simulator

/-- The left side of the rule that a move reduces by. -/
def Move.reduced? : Move → Option Symbol
  | .reduce r => some r.lhs
  | _ => none

/-- What a move reduces does not depend on places. -/
@[simp] theorem Move.reduced?_unplaced (m : Move) : m.unplaced.reduced? = m.reduced? := by
  cases m <;> rfl

/-- The stack at a step spells a path of an automaton from state 0, with trees
    for the symbols of the path and for a left side that is about to follow. -/
structure Step.OnPath (a : Automaton) (st : Step) : Prop where
  height : st.states.length = st.symbols.length
  bottom : st.states[0]? = some 0 ∧ st.symbols[0]? = some Symbol.endMarker
  path : ∀ (i : Nat) (k l : Int) (x : Symbol), st.states[i]? = some k →
    st.states[i + 1]? = some l → st.symbols[i + 1]? = some x →
      ∃ (s : Automaton.State) (n : Nat), a.state? k = some s ∧ s.goto? x = some n ∧ l = n
  labels : st.forest.labels = st.symbols.tail ++ st.move.reduced?.toList

/-- A step on a path that reports no fault but the limit of rounds. -/
structure Step.Sound (a : Automaton) (st : Step) : Prop extends st.OnPath a where
  no_goto_error : st.kind ≠ .gotoError
  only_limit : st.kind = .internalError →
    ∃ n, st.move = .fault (.iterationLimit n) ∧ st.move.label = "iteration limit"

/-- Whether a step is sound can be seen. -/
theorem Step.Sound.of_sight {a : Automaton} {s s' : Step} (h : s.sight = s'.sight)
    (hs : s.Sound a) : s'.Sound a := by
  have hstates := Step.states_eq h
  have hsymbols := Step.symbols_eq h
  have hmove := Step.unplaced_eq h
  have hreduced : s.move.reduced? = s'.move.reduced? := by
    rw [← Move.reduced?_unplaced, hmove, Move.reduced?_unplaced]
  -- everything that is asked of a step can be seen
  refine ⟨⟨?_, ?_, ?_, ?_⟩, ?_, ?_⟩
  · rw [← hstates, ← hsymbols]
    exact hs.height
  · rw [← hstates, ← hsymbols]
    exact hs.bottom
  · rw [← hstates, ← hsymbols]
    exact hs.path
  · rw [← Step.labels_eq h, ← hsymbols, ← hreduced]
    exact hs.labels
  · rw [← Step.kind_eq h]
    exact hs.no_goto_error
  · intro hkind
    rw [← Step.kind_eq h] at hkind
    obtain ⟨n, hn, -⟩ := hs.only_limit hkind
    rw [hn] at hmove
    have hfault : s'.move = .fault (.iterationLimit n) := by
      cases hmove' : s'.move with
      | fault f =>
          rw [hmove'] at hmove
          exact hmove.symm
      | shift | reduce | goTo | accept | syntaxError | gotoError =>
          rw [hmove'] at hmove
          exact nomatch hmove
    exact ⟨n, hfault, by rw [hfault]; rfl⟩

/-! ## Stacks of legal configurations -/

namespace Stacked

variable {g : Grammar} {stack : List Frame} {k : Nat} {f : Forest}

/-- The last state that is shown is that of the top. -/
theorem getLast?_states (h : Stacked g stack k f) :
    (stack.reverse.map Frame.state).getLast? = some (k : Int) := by
  rw [List.getLast?_map, List.getLast?_reverse]
  cases h with
  | bottom => rfl
  | push _ _ _ => rfl

/-- From each frame to the next there is a transition of the automaton. -/
theorem path (h : Stacked g stack k f) :
    ∀ (i : Nat) (j l : Int) (x : Symbol), (stack.reverse.map Frame.state)[i]? = some j →
      (stack.reverse.map Frame.state)[i + 1]? = some l →
      (stack.reverse.map Frame.symbol)[i + 1]? = some x →
        ∃ (s : Automaton.State) (n : Nat),
          (Automaton.build g).state? j = some s ∧ s.goto? x = some n ∧ l = n := by
  induction h with
  | bottom =>
      intro i j l x hj hl hx
      exact nomatch hl
  | @push stack k l' f n hbelow hgoto hn ih =>
      intro i j l x hj hl hx
      have hstates : (stack.reverse.map Frame.state).length = stack.length := by simp
      have hsymbols : (stack.reverse.map Frame.symbol).length = stack.length := by simp
      rw [List.reverse_cons, List.map_append] at hj hl hx
      by_cases hi : i + 1 < stack.length
      · rw [List.getElem?_append_left (by omega)] at hj hl hx
        exact ih i j l x hj hl hx
      · -- the last edge of the path leads to the frame on top
        obtain ⟨hlt, -⟩ := List.getElem?_eq_some_iff.mp hl
        rw [List.length_append, hstates, List.map_singleton, List.length_singleton] at hlt
        have hi' : i + 1 = stack.length := by omega
        rw [List.getElem?_append_left (by omega)] at hj
        rw [List.getElem?_append_right (by omega), hstates, hi', Nat.sub_self] at hl
        rw [List.getElem?_append_right (by omega), hsymbols, hi', Nat.sub_self] at hx
        obtain rfl := Option.some.inj hl
        obtain rfl := Option.some.inj hx
        have htop := hbelow.getLast?_states
        rw [List.getLast?_eq_getElem?, hstates, ← hi', Nat.add_sub_cancel, hj] at htop
        obtain rfl := Option.some.inj htop
        obtain ⟨s, hs, hgoto'⟩ := Option.bind_eq_some_iff.mp hgoto
        exact ⟨s, l', hs, hgoto', rfl⟩

/-- The trees are labelled with the symbols above the bottom. -/
theorem labels_eq (h : Stacked g stack k f) :
    f.labels = (stack.reverse.map Frame.symbol).tail := by
  induction h with
  | bottom => rfl
  | @push stack k l' f n hbelow hgoto hn ih =>
      have hne : stack.reverse.map Frame.symbol ≠ [] := by
        intro hnil
        have hlength := congrArg List.length hnil
        rw [List.length_map, List.length_reverse, hbelow.length_eq] at hlength
        exact nomatch hlength
      rw [Forest.labels_append, ih, List.reverse_cons, List.map_append, List.tail_append_of_ne_nil hne]
      rfl

/-- At the bottom is state 0 with the end marker. -/
theorem bottom_eq (h : Stacked g stack k f) :
    (stack.reverse.map Frame.state)[0]? = some 0 ∧
      (stack.reverse.map Frame.symbol)[0]? = some Symbol.endMarker := by
  induction h with
  | bottom => exact ⟨rfl, rfl⟩
  | @push stack k l' f n hbelow hgoto hn ih =>
      have hpos : 0 < stack.reverse.length := by
        rw [List.length_reverse, hbelow.length_eq]
        exact Nat.succ_pos _
      rw [List.reverse_cons, List.map_append, List.map_append,
        List.getElem?_append_left (by rw [List.length_map]; exact hpos),
        List.getElem?_append_left (by rw [List.length_map]; exact hpos)]
      exact ih

/-- The symbols above the bottom are symbols of the grammar. -/
theorem grown (hg : g.Checked) (h : Stacked g stack k f) : Grown stack := by
  induction h with
  | bottom => exact grown_fresh
  | push _ _ hn ih =>
      refine ih.push ?_ rfl
      cases hn with
      | leaf id s value span hs => exact (hg.ne_of_mem (Or.inl hs)).2.1
      | empty id k span span' value p r hr hbody =>
          exact (hg.ne_of_mem (Or.inr (hg.lhs_mem r (Grammar.mem_of_rule? hr)))).2.1
      | rule id span children p r hr hbody hlabels hall =>
          exact (hg.ne_of_mem (Or.inr (hg.lhs_mem r (Grammar.mem_of_rule? hr)))).2.1

/-- A step with a stack that spells a path. -/
theorem onPath {st : Step} (h : Stacked g st.stack k f)
    (hpending : st.pending.map Node.label = st.move.reduced?) : st.OnPath (Automaton.build g) where
  height := by rw [Step.states, Step.symbols, List.length_map, List.length_map]
  bottom := h.bottom_eq
  path := h.path
  labels := by
    have hforest : st.forest = f ++ st.pending.toList := by
      rw [Step.forest, h.nodes_eq]
    rw [hforest, Forest.labels_append, h.labels_eq, ← hpending]
    cases st.pending with
    | none => rfl
    | some n => rfl

end Stacked

/-! ## Legal runs -/

section LegalRuns

variable {g : Grammar} {s : Symbol} {c d : Configuration} {k n : Nat} {f : Forest}
  {steps : List Step}

/-- The step that ends a legal run. -/
theorem Legal.record_sound (hc : Legal g c k f) {m : Move} (hreduced : m.reduced? = none)
    (hgoto : m.kind ≠ .gotoError)
    (hfault : m.kind = .internalError → ∃ n, m = .fault (.iterationLimit n)) :
    (c.record m none).Sound (Automaton.build g) where
  toOnPath := hc.stacked.onPath hreduced.symm
  no_goto_error := hgoto
  only_limit hkind := by
    obtain ⟨n, rfl⟩ := hfault hkind
    exact ⟨n, rfl, rfl⟩

/-- The steps of a round that leads to a legal configuration. -/
theorem Moved.sound {t : Table} (h : Moved g t c steps d) (hd : Legal g d k f) :
    ∀ st ∈ steps, st.Sound (Automaton.build g) := by
  have hsound : ∀ {st : Step} {l : Nat} {f' : Forest}, Stacked g st.stack l f' →
      st.pending.map Node.label = st.move.reduced? → st.kind ≠ .gotoError →
        st.kind ≠ .internalError → st.Sound (Automaton.build g) := by
    intro st l f' hstacked hpending hgoto hfault
    exact ⟨hstacked.onPath hpending, hgoto, fun hkind => absurd hkind hfault⟩
  have hstacked := hd.stacked
  cases h with
  | shift haction hmove hpending hleads hlabel hstack hrest hlast =>
      intro st hst
      obtain rfl := List.mem_singleton.mp hst
      rw [hleads.stack] at hstacked
      refine hsound hstacked ?_ ?_ ?_
      · rw [hpending, hmove]; rfl
      · rw [Step.kind, hmove]; rintro ⟨⟩
      · rw [Step.kind, hmove]; rintro ⟨⟩
  | @reduce r source target node st₀ st₁ _ hr hmove hpending hmove' hpending' hleads hlabel hdeep
      hpopped hstack hrest hlast =>
      intro st hst
      rcases List.mem_pair.mp hst with rfl | rfl
      · -- the stack of the reduction is what is below the frame of the left side
        generalize hall : d.stack = all at hstacked
        rw [hstack] at hall
        cases hstacked with
        | bottom =>
            have hnode : some node = none := congrArg Frame.node (List.cons.inj hall).1
            cases hnode
        | push hbelow hgoto hn =>
            obtain ⟨-, rfl⟩ := List.cons.inj hall
            refine hsound hbelow ?_ ?_ ?_
            · rw [hpending, hmove]; exact congrArg some hlabel
            · rw [Step.kind, hmove]; rintro ⟨⟩
            · rw [Step.kind, hmove]; rintro ⟨⟩
      · rw [hleads.stack] at hstacked
        refine hsound hstacked ?_ ?_ ?_
        · rw [hpending', hmove']; rfl
        · rw [Step.kind, hmove']; rintro ⟨⟩
        · rw [Step.kind, hmove']; rintro ⟨⟩

/-- All steps of a legal run are sound. -/
theorem Legal.runs_sound (h : Table.Tabular g s) (hruns : Runs g (Table.ofGrammar g) n c steps d) :
    ∀ {k : Nat} {f : Forest}, Legal g c k f → ∀ st ∈ steps, st.Sound (Automaton.build g) := by
  induction hruns with
  | refl c =>
      intro k f hc st hst
      exact nomatch hst
  | @step n c next d steps later hturn _ ih =>
      intro k f hc st hst
      obtain ⟨l, f', hnext, -⟩ := hc.goesOn h hturn
      rcases List.mem_append.mp hst with hst | hst
      · exact (moved_of_goesOn hturn).sound hnext st hst
      · exact ih hnext st hst

/-- All steps of a legal play are sound. -/
theorem Legal.play_sound (h : Table.Tabular g s) (hc : Legal g c k f) (limit : Nat) :
    ∀ st ∈ (play g (Table.ofGrammar g) limit limit c []).steps, st.Sound (Automaton.build g) := by
  intro st hst
  rcases play_cases (g := g) (t := Table.ofGrammar g) limit limit c [] with
    ⟨steps, d, hruns, hres⟩ | ⟨n, steps, d, later, accepted, final, -, hruns, hend, hres⟩
  · obtain ⟨l, f', hd, -⟩ := Legal.runs h hruns hc
    rw [hres] at hst
    rcases List.mem_append.mp hst with hst | hst
    · exact Legal.runs_sound h hruns hc st hst
    · rw [List.mem_singleton.mp hst]
      exact hd.record_sound rfl nofun fun _ => ⟨limit, rfl⟩
  · obtain ⟨l, f', hd, -⟩ := Legal.runs h hruns hc
    rw [hres] at hst
    rcases List.mem_append.mp hst with hst | hst
    · exact Legal.runs_sound h hruns hc st hst
    · -- a legal run ends with an acceptance or a syntax error
      have heffect := turn_effect h hd
      rw [hend] at heffect
      generalize hround : Turn.ends later accepted final = round at heffect
      cases heffect with
      | error hnone =>
          obtain ⟨rfl, -, -⟩ := Turn.ends.inj hround
          rw [List.mem_singleton.mp hst]
          exact hd.record_sound rfl nofun nofun
      | accept hlabels hmark =>
          obtain ⟨rfl, -, -⟩ := Turn.ends.inj hround
          rw [List.mem_singleton.mp hst]
          exact hd.record_sound rfl nofun nofun
      | shift => exact nomatch hround
      | reduce => exact nomatch hround

/-- Behind a shift or a goto, a legal play goes on from a legal configuration, with
    trees for what was shifted up to there. -/
theorem Legal.exists_behind (h : Table.Tabular g s) (hc : Legal g c k f) {limit i : Nat} {st : Step}
    (hst : (play g (Table.ofGrammar g) limit limit c []).steps[i]? = some st)
    (hkind : st.kind.isResumable = true) :
    ∃ e l f', st.LeadsTo e ∧ Legal g e l f' ∧ f'.word
      = f.word ++ shifted ((play g (Table.ofGrammar g) limit limit c []).steps.take (i + 1)) := by
  obtain ⟨m, early, e, -, hearly, htake, hleads⟩ := play_cut hst hkind
  obtain ⟨l, f', he, hprogress⟩ := Legal.runs h hearly hc
  refine ⟨e, l, f', hleads, he, ?_⟩
  rw [htake]
  exact hprogress.word

/-- Every step that can be resumed leads to a legal configuration. -/
theorem Legal.exists_leadsTo (h : Table.Tabular g s) (hc : Legal g c k f) (limit : Nat) {st : Step}
    (hst : st ∈ (play g (Table.ofGrammar g) limit limit c []).steps)
    (hkind : st.kind.isResumable = true) :
    ∃ e l f', st.LeadsTo e ∧ Legal g e l f' := by
  obtain ⟨i, hi⟩ := List.mem_iff_getElem?.mp hst
  obtain ⟨e, l, f', hleads, he, -⟩ := hc.exists_behind h hi hkind
  exact ⟨e, l, f', hleads, he⟩

end LegalRuns

end Simulator

/-! ## Parses and what is resumed from them -/

open Simulator

/-- The results of parses with the table of a compilation: of those that begin
    afresh, and of those that are resumed behind a shift or a goto of another,
    with any tokens and any limit. -/
inductive Compilation.Ran (c : Compilation) (g : Grammar) : Result → Prop where
  | fresh (limit : Nat) (tokens : List Token) : Ran c g (c.parse g limit tokens)
  | resumed {r : Result} (hr : Ran c g r) {st : Step} (hst : st ∈ r.steps)
      (hkind : st.kind.isResumable = true) (limit : Nat) (tokens : List Token) :
      Ran c g ((Simulator.make (some g) (some c.table) limit).parseTokens tokens
        (some st.checkpoint))

namespace Compiled

variable {g : Grammar} {c : Compilation}

/-- Every run looks like one from a legal configuration. -/
theorem exists_legal (h : Compiled g c) {r : Result} (hr : c.Ran g r) :
    ∃ limit e k f, Legal g.augmented e k f ∧
      r.steps.map Step.sight
        = (play g.augmented (Table.ofGrammar g.augmented) limit limit e []).steps.map Step.sight := by
  induction hr with
  | fresh limit tokens =>
      obtain ⟨last, hparse⟩ := h.parse_eq limit tokens
      exact ⟨limit, _, 0, [], legal_fresh g.augmented last (closeTokens_closed tokens), by rw [hparse]⟩
  | @resumed r hr st hst hkind limit tokens ih =>
      obtain ⟨limit₀, e₀, k₀, f₀, hlegal₀, hsame⟩ := ih
      -- the step that looks the same in the legal run has the same checkpoint
      obtain ⟨st', hst', hsight⟩ := Step.exists_same hsame hst
      have hkind' : st'.kind.isResumable = true := by
        rw [Step.kind_eq hsight]
        exact hkind
      obtain ⟨e, l, f, hleads, he⟩ := hlegal₀.exists_leadsTo h.tabular limit₀ hst' hkind'
      let last := (closeTokens tokens).getLastD (Token.endAt 0)
      refine ⟨limit, { e with rest := closeTokens tokens, last }, l, f,
        ⟨he.stacked, he.epsilon, closeTokens_closed tokens⟩, ?_⟩
      rw [Compilation.parseTokens_eq h.ensureAugmented_eq h.compiled, ← Step.checkpoint_eq hsight]
      have hsame' := start_same hleads (he.stacked.grown h.tabular.toChecked) tokens rfl rfl
      exact (hsame'.play _ _ limit).1

/-- **Stack invariant.**  At every step of a parse, afresh or resumed any number
    of times, the states and the symbols of the stack spell a path of the
    automaton from state 0, and the labels of the trees are the symbols of the
    path, followed by the left side of the rule at a reduction.  No step is a
    goto error, and none reports a fault other than the limit of rounds. -/
theorem stack_invariant (h : Compiled g c) {r : Result} (hr : c.Ran g r) :
    ∀ st ∈ r.steps, st.Sound c.automaton := by
  intro st hst
  obtain ⟨limit, e, k, f, hlegal, hsame⟩ := h.exists_legal hr
  obtain ⟨st', hst', hsight⟩ := Step.exists_same hsame hst
  rw [h.automaton_eq]
  exact (hlegal.play_sound h.tabular limit st' hst').of_sight hsight

end Compiled

/-- A parse of the small grammar is resumed behind its goto over the empty
    rule, with tokens that it cannot go on with. -/
theorem stack_invariant_sample :
    ∃ st ∈ (sampleCompilation.parse sampleGrammar 4 [⟨"a", [97], ⟨0, 1⟩⟩]).steps,
      st.kind = .goTo ∧ st.symbols = ["$", "N"] ∧
      ∀ st' ∈ ((Simulator.make (some sampleGrammar) (some sampleCompilation.table) 4).parseTokens
          [⟨"a", [97], ⟨0, 1⟩⟩, ⟨"b", [98], ⟨1, 2⟩⟩] (some st.checkpoint)).steps,
        st'.Sound sampleCompilation.automaton := by
  have hstep : ((sampleCompilation.parse sampleGrammar 4 [⟨"a", [97], ⟨0, 1⟩⟩]).steps[1]?.map
      fun st => (st.kind, st.symbols)) = some (.goTo, ["$", "N"]) := by decide +kernel
  obtain ⟨st, hst, hboth⟩ := Option.map_eq_some_iff.mp hstep
  obtain ⟨hkind, hsymbols⟩ := Prod.mk.inj hboth
  have hmem := List.mem_of_getElem? hst
  refine ⟨st, hmem, hkind, hsymbols, ?_⟩
  refine compiled_sample.stack_invariant (.resumed (.fresh 4 _) hmem ?_ 4 _)
  rw [hkind]
  rfl

end ShiftReduce
