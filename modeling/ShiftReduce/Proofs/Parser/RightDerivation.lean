import ShiftReduce.Proofs.Parser.StackInvariant

/-! # Right derivations — an accepting trace is one, read backwards

    The symbols on the stack and those of the tokens that are left make up a
    form.  A shift moves a symbol from one part to the other and leaves the form
    as it is.  A reduction takes the body of its rule from the top of the stack,
    and behind the top stand terminals only; so the form before it comes from
    the form behind its goto by one rightmost rewriting step.  An accepting
    trace begins with the form of the input and ends with the start symbol.

    `Unwinds` says this of a trace by recursion on it, and a run is put in front
    of such a trace round by round (`Legal.unwinds`).  Conflicts in the table do
    not matter: what the stack spells is known from the automaton. -/

namespace ShiftReduce

namespace Simulator

/-- The symbols of tokens, without end markers. -/
def plain (tokens : List Token) : List Symbol :=
  (tokens.map Token.symbol).filter fun s => s != Symbol.endMarker

/-- The form of a step: the symbols above the bottom of the stack, and those of
    the tokens that are left. -/
def Step.form (st : Step) : List Symbol :=
  st.symbols.tail ++ plain st.rest

/-- The form of a configuration, in the same way. -/
def Configuration.form (c : Configuration) : List Symbol :=
  (c.stack.reverse.map Frame.symbol).tail ++ plain c.rest

/-- The rule that a step reduces by. -/
def Step.reducedBy? (st : Step) : Option Production :=
  match st.move with
  | .reduce r => some r
  | _ => none

/-- The rules that the steps of a trace reduce by, in order. -/
def reductions (steps : List Step) : List Production :=
  steps.filterMap Step.reducedBy?

/-- The form that a trace has right before a place: at the beginning the first
    form, and elsewhere that of the shift or the goto before the place. -/
inductive FormAt (first : List Symbol) (steps : List Step) : Nat → List Symbol → Prop where
  | start : FormAt first steps 0 first
  | behind {k : Nat} {st : Step} (hst : steps[k]? = some st)
      (hkind : st.kind.isResumable = true) : FormAt first steps (k + 1) st.form

/-- A trace that ends with an acceptance and unwinds a rightmost derivation from
    a goal to a first form. -/
inductive Unwinds (g : Grammar) (goal : List Symbol) : List Symbol → List Step → Prop where
  | accept {st : Step} (hmove : st.move = .accept) : Unwinds g goal goal [st]
  | shift {u : List Symbol} {st : Step} {later : List Step} (hkind : st.kind = .shift)
      (hform : st.form = u) (h : Unwinds g goal u later) : Unwinds g goal u (st :: later)
  | reduce {u : List Symbol} {st st' : Step} {later : List Step} {r : Production}
      {source target : Int} (hmove : st.move = .reduce r)
      (hmove' : st'.move = .goTo r source target)
      (hstep : g.RewritesRightmost r st'.form u) (h : Unwinds g goal st'.form later) :
      Unwinds g goal u (st :: st' :: later)

/-! ## Places in an unwinding trace -/

section Places

variable {u w : List Symbol} {k : Nat} {st st' : Step} {steps later : List Step}

/-- Behind a shift or a goto, a trace goes on with its form. -/
theorem FormAt.behind_first (hkind : st.kind.isResumable = true) (h : FormAt st.form later k w) :
    FormAt u (st :: later) (k + 1) w := by
  cases h with
  | start => exact .behind rfl hkind
  | behind hst hkind' => exact .behind hst hkind'

/-- So it does if some step comes before the shift or the goto. -/
theorem FormAt.behind_second (hkind : st'.kind.isResumable = true) (h : FormAt st'.form later k w) :
    FormAt u (st :: st' :: later) (k + 2) w := by
  cases h with
  | start => exact .behind rfl hkind
  | behind hst hkind' => exact .behind hst hkind'

namespace Unwinds

variable {g : Grammar} {goal : List Symbol}

/-- The form is unchanged across a shift. -/
theorem formAt_shift (h : Unwinds g goal u steps) :
    ∀ {k : Nat} {st : Step}, steps[k]? = some st → st.kind = .shift → FormAt u steps k st.form := by
  induction h with
  | @accept st₀ hmove =>
      intro k st hst hkind
      obtain rfl := List.mem_singleton.mp (List.mem_of_getElem? hst)
      rw [Step.kind, hmove] at hkind
      cases hkind
  | @shift u st₀ later hkind₀ hform h ih =>
      intro k st hst hkind
      cases k with
      | zero =>
          obtain rfl : st₀ = st := Option.some.inj hst
          rw [hform]
          exact .start
      | succ k =>
          have hlater := ih hst hkind
          rw [← hform] at hlater
          exact hlater.behind_first (by rw [hkind₀]; rfl)
  | @reduce u st₀ st₁ later r source target hmove hmove' hstep h ih =>
      intro k st hst hkind
      rcases k with _ | _ | k
      · obtain rfl : st₀ = st := Option.some.inj hst
        rw [Step.kind, hmove] at hkind
        cases hkind
      · obtain rfl : st₁ = st := Option.some.inj hst
        rw [Step.kind, hmove'] at hkind
        cases hkind
      · -- the first two steps are the reduction and its goto, so a shift comes later
        have hlater := ih (k := k) hst hkind
        exact hlater.behind_second (by rw [Step.kind, hmove']; rfl)

/-- Across a reduction and its goto, the earlier form comes from the later one by
    a rightmost rewriting step. -/
theorem formAt_reduce (h : Unwinds g goal u steps) :
    ∀ {k : Nat} {st : Step} {r : Production}, steps[k]? = some st → st.move = .reduce r →
      ∃ st' source target v, steps[k + 1]? = some st' ∧ st'.move = .goTo r source target ∧
        FormAt u steps k v ∧ g.RewritesRightmost r st'.form v := by
  induction h with
  | @accept st₀ hmove =>
      intro k st r hst hr
      obtain rfl := List.mem_singleton.mp (List.mem_of_getElem? hst)
      cases hmove.symm.trans hr
  | @shift u st₀ later hkind₀ hform h ih =>
      intro k st r hst hr
      cases k with
      | zero =>
          obtain rfl : st₀ = st := Option.some.inj hst
          rw [Step.kind, hr] at hkind₀
          cases hkind₀
      | succ k =>
          obtain ⟨st', source, target, v, hst', hmove', hat, hstep⟩ := ih hst hr
          rw [← hform] at hat
          exact ⟨st', source, target, v, hst', hmove',
            hat.behind_first (by rw [hkind₀]; rfl), hstep⟩
  | @reduce u st₀ st₁ later r₀ source₀ target₀ hmove₀ hmove₁ hstep₀ h ih =>
      intro k st r hst hr
      rcases k with _ | _ | k
      · -- the reduction itself: its goto is the next step
        obtain rfl : st₀ = st := Option.some.inj hst
        obtain rfl := Move.reduce.inj (hmove₀.symm.trans hr)
        exact ⟨st₁, source₀, target₀, u, rfl, hmove₁, .start, hstep₀⟩
      · obtain rfl : st₁ = st := Option.some.inj hst
        cases hmove₁.symm.trans hr
      · obtain ⟨st', source, target, v, hst', hmove', hat, hstep⟩ := ih (k := k) hst hr
        exact ⟨st', source, target, v, hst', hmove',
          hat.behind_second (by rw [Step.kind, hmove₁]; rfl), hstep⟩

/-- The rules of the reductions, read backwards, derive the first form. -/
theorem derives (h : Unwinds g goal u steps) :
    g.DerivesRightmost goal (reductions steps).reverse u := by
  induction h with
  | @accept st hmove =>
      have hnone : st.reducedBy? = none := by rw [Step.reducedBy?, hmove]
      rw [reductions, List.filterMap_cons_none hnone]
      exact .refl goal
  | @shift u st later hkind hform h ih =>
      have hnone : st.reducedBy? = none := by
        rw [Step.reducedBy?]
        split
        · rename_i r hmove
          rw [Step.kind, hmove] at hkind
          cases hkind
        · rfl
      rw [reductions, List.filterMap_cons_none hnone]
      exact ih
  | @reduce u st st' later r source target hmove hmove' hstep h ih =>
      have hsome : st.reducedBy? = some r := by rw [Step.reducedBy?, hmove]
      have hnone : st'.reducedBy? = none := by rw [Step.reducedBy?, hmove']
      rw [reductions, List.filterMap_cons_some hsome, List.filterMap_cons_none hnone,
        List.reverse_cons]
      exact ih.tail hstep

end Unwinds

end Places

/-! ## Legal runs -/

section LegalRuns

variable {g : Grammar} {s : Symbol} {c d : Configuration} {k n : Nat} {f : Forest}
  {steps : List Step}

/-- The rest of an input whose symbols are a word with an end marker behind it. -/
def Spells (g : Grammar) (w : List Symbol) (rest : List Token) : Prop :=
  g.IsWord w ∧ rest.map Token.symbol = w ++ [Symbol.endMarker]

/-- Without its end marker, the rest is the word. -/
theorem Spells.plain_eq (hg : g.WellFormed) {w : List Symbol} {rest : List Token}
    (h : Spells g w rest) : plain rest = w := by
  obtain ⟨hw, hrest⟩ := h
  have hkept : ∀ x ∈ w, (x != Symbol.endMarker) = true := by
    intro x hx
    exact bne_iff_ne.mpr (hg.ne_of_mem (Or.inl (hw x hx))).2.1
  have hmark : [Symbol.endMarker].filter (fun x => x != Symbol.endMarker) = [] := rfl
  rw [plain, hrest, List.filter_append, hmark, List.append_nil, List.filter_eq_self.mpr hkept]

/-- The form of a step is that of the configuration that it leads to. -/
theorem Step.LeadsTo.form_eq {st : Step} (h : st.LeadsTo d) : st.form = d.form := by
  rw [Step.form, Configuration.form, Step.symbols, h.stack, h.rest]

/-- The form of a legal configuration before a word. -/
theorem Legal.form_eq (hg : g.WellFormed) (hc : Legal g c k f) {w : List Symbol}
    (hw : Spells g w c.rest) : c.form = f.labels ++ w := by
  rw [Configuration.form, hw.plain_eq hg, hc.stacked.labels_eq]

/-- A symbol that goes from the input to the stack leaves the form as it is. -/
theorem Legal.form_shift (hg : g.WellFormed) (hc : Legal g c k f) {x : Symbol} {w : List Symbol}
    (hw : Spells g (x :: w) c.rest) (hw' : Spells g w d.rest) {frame : Frame}
    (hsymbol : frame.symbol = x) (hstack : d.stack = frame :: c.stack) : d.form = c.form := by
  have hne : c.stack.reverse.map Frame.symbol ≠ [] := by
    intro hnil
    have hlength := congrArg List.length hnil
    rw [List.length_map, List.length_reverse, hc.stacked.length_eq] at hlength
    exact nomatch hlength
  rw [Configuration.form, Configuration.form, hw.plain_eq hg, hw'.plain_eq hg, hstack,
    List.reverse_cons, List.map_append, List.tail_append_of_ne_nil hne, List.append_assoc]
  show _ ++ frame.symbol :: w = _
  rw [hsymbol]

/-- What a shift leaves of a word. -/
theorem Spells.tail {a : Token} {w : List Symbol} {rest : List Token} (h : Spells g w (a :: rest))
    (hmore : rest ≠ []) : ∃ w', w = a.symbol :: w' ∧ Spells g w' rest := by
  obtain ⟨hw, hsymbols⟩ := h
  rw [List.map_cons] at hsymbols
  cases w with
  | nil =>
      have hnil := (List.cons.inj hsymbols).2
      exact absurd (List.map_eq_nil_iff.mp hnil) hmore
  | cons x w' =>
      obtain ⟨rfl, hrest⟩ := List.cons.inj hsymbols
      exact ⟨w', rfl, fun y hy => hw y (List.mem_cons_of_mem _ hy), hrest⟩

/-- A run before a word, put in front of an unwinding trace. -/
theorem Legal.unwinds (h : Table.Tabular g s) {goal : List Symbol} {later : List Step}
    (hruns : Runs g (Table.ofGrammar g) n c steps d) (hlater : Unwinds g goal d.form later) :
    ∀ {k : Nat} {f : Forest} {w : List Symbol}, Legal g c k f → Spells g w c.rest →
      Unwinds g goal c.form (steps ++ later) := by
  have hg := h.toWellFormed
  -- along the run, with the spelling of the input that is left
  induction hruns with
  | refl c =>
      intro k f w _ _
      exact hlater
  | @step n c next d steps rest hturn _ ih =>
      intro k f w hc hw
      have hmoved := moved_of_goesOn hturn
      have heffect := turn_effect h hc
      rw [hturn] at heffect
      rw [List.append_assoc]
      cases heffect with
      | @shift st _ l node _ _ hrest hd _ _ =>
          have hmore : next.rest ≠ [] := by
            rw [hd.rest_eq]
            exact List.cons_ne_nil _ _
          obtain ⟨w', rfl, hw'⟩ : ∃ w', w = c.lookahead.symbol :: w' ∧ Spells g w' next.rest := by
            rw [hrest] at hw
            exact hw.tail hmore
          cases hmoved with
          | shift _ hmove _ hleads _ hstack _ _ =>
              -- a shift moves the boundary between stack and input, so the form stays
              have hsame : next.form = c.form := hc.form_shift hg hw hw' rfl hstack
              have hnext := ih hlater hd hw'
              rw [hsame] at hnext
              exact .shift (by rw [Step.kind, hmove]; rfl) (hleads.form_eq.trans hsame) hnext
      | @reduce f₁ f₂ st st' _ j l r node hf hmove hmove' _ _ hrest hd hn =>
          have hw' : Spells g w next.rest := by
            rw [hrest]
            exact hw
          have hnext := ih hlater hd hw'
          cases hmoved with
          | reduce hr hmove₀ _ _ _ hleads _ _ _ _ _ _ =>
              obtain rfl := Move.reduce.inj (hmove.symm.trans hmove₀)
              -- a reduction exchanges the handle for the
              -- left side, in front of terminals only
              have hform : st'.form = f₁.labels ++ r.lhs :: w := by
                rw [hleads.form_eq, hd.form_eq hg hw', Forest.labels_append, Forest.labels_cons,
                  Forest.labels_nil, hn.label, List.append_assoc, List.singleton_append]
              have hbefore : c.form = f₁.labels ++ r.body ++ w := by
                rw [hc.form_eq hg hw, hf, Forest.labels_append, hn.body]
              refine .reduce hmove hmove' ?_ (by rw [hleads.form_eq]; exact hnext)
              rw [hform, hbefore]
              exact .step _ w hr hw.1

end LegalRuns

/-! ## The input of an accepting parse -/

/-- Closing the tokens adds an end marker, which is not counted. -/
theorem plain_closeTokens (tokens : List Token) : plain (closeTokens tokens) = plain tokens := by
  rcases closeTokens_cases tokens with ⟨heq, -⟩ | ⟨position, heq⟩
  · rw [heq]
  · have hmark : plain [Token.endAt position] = [] := rfl
    rw [heq, plain, List.map_append, List.filter_append]
    show plain tokens ++ plain [Token.endAt position] = plain tokens
    rw [hmark, List.append_nil]

/-- If an end marker stands at the end of the tokens only, so it does when they
    are closed. -/
theorem dropLast_closeTokens {tokens : List Token} (h : ∀ t ∈ tokens.dropLast, t.isEnd = false) :
    ∀ t ∈ (closeTokens tokens).dropLast, t.isEnd = false := by
  rw [closeTokens]
  cases hlast : tokens.getLast? with
  | none => intro t ht; exact absurd ht List.not_mem_nil
  | some e =>
      dsimp only
      by_cases hend : e.isEnd = true
      · rw [if_pos hend]
        exact h
      · obtain ⟨front, rfl⟩ := List.getLast?_eq_some_iff.mp hlast
        rw [List.dropLast_concat] at h
        rw [if_neg hend, List.dropLast_concat]
        intro t ht
        rcases List.mem_append.mp ht with ht | ht
        · exact h t ht
        · rw [List.mem_singleton.mp ht]
          exact Bool.eq_false_iff.mpr hend

/-- Where the only end marker of an input comes next, nothing is behind it. -/
theorem tail_eq_nil {front rest : List Token} {a : Token}
    (h : ∀ t ∈ (front ++ a :: rest).dropLast, t.isEnd = false) (ha : a.isEnd = true) :
    rest = [] := by
  by_contra hne
  obtain ⟨b, rest, rfl⟩ := List.exists_cons_of_ne_nil hne
  have hmem : a ∈ (front ++ a :: b :: rest).dropLast := by
    rw [List.dropLast_append_of_ne_nil (List.cons_ne_nil _ _), List.dropLast_cons_cons]
    exact List.mem_append_right _ List.mem_cons_self
  rw [h a hmem] at ha
  exact nomatch ha

end Simulator

open Simulator

/-- **The trace is a right derivation.**  Let a parse accept tokens that have an
    end marker at most at their end.  The form before a shift is that of the
    shift.  A reduction is followed by its goto, and the form before it comes
    from that of the goto by one rightmost rewriting step with its rule.  So the
    rules of the reductions, read backwards, are a rightmost derivation of the
    symbols of the tokens from the start symbol. -/
theorem Compiled.trace_rightmost {g : Grammar} {c : Compilation} (h : Compiled g c) (limit : Nat)
    (tokens : List Token) (hends : ∀ t ∈ tokens.dropLast, t.isEnd = false)
    (haccepted : (c.parse g limit tokens).accepted = true) :
    (∀ (k : Nat) (st : Step), (c.parse g limit tokens).steps[k]? = some st → st.kind = .shift →
      FormAt (plain tokens) (c.parse g limit tokens).steps k st.form) ∧
    (∀ (k : Nat) (st : Step) (r : Production), (c.parse g limit tokens).steps[k]? = some st →
      st.move = .reduce r → ∃ st' source target u,
        (c.parse g limit tokens).steps[k + 1]? = some st' ∧ st'.move = .goTo r source target ∧
        FormAt (plain tokens) (c.parse g limit tokens).steps k u ∧
        c.grammar.RewritesRightmost r st'.form u) ∧
    c.grammar.DerivesRightmost [c.grammar.baseStart]
      (reductions (c.parse g limit tokens).steps).reverse (plain tokens) := by
  suffices hunwinds : Unwinds c.grammar [c.grammar.baseStart] (plain tokens)
      (c.parse g limit tokens).steps from
    ⟨fun _ _ => hunwinds.formAt_shift, fun _ _ _ => hunwinds.formAt_reduce, hunwinds.derives⟩
  have hg := h.tabular
  have hclosed := closeTokens_closed tokens
  obtain ⟨last, hparse⟩ := h.parse_eq limit tokens
  have houtcome := play_outcome hg limit last hclosed
  rw [← hparse] at houtcome
  rw [h.grammar_eq]
  generalize c.parse g limit tokens = result at haccepted houtcome
  cases houtcome with
  | limit hruns hd hprogress => exact nomatch haccepted
  | error hruns hd hprogress hn hturn => exact nomatch haccepted
  | @accept n steps d k f hruns hd hprogress hn hlabels hend =>
      have hwf := hg.toWellFormed
      -- the only end marker comes next, so it is all that is left
      have hnothing : d.rest.tail = [] := by
        obtain ⟨front, hfront⟩ := hruns.rest_suffix
        have hall := dropLast_closeTokens hends
        rw [show closeTokens tokens = front ++ d.rest from hfront.symm, hd.rest_eq] at hall
        exact tail_eq_nil hall (by rw [Token.isEnd, hend]; rfl)
      have hmark : d.rest.map Token.symbol = [Symbol.endMarker] := by
        rw [hd.rest_eq, hnothing, List.map_singleton, hend]
      have hempty : Spells g.augmented [] d.rest := ⟨fun _ hx => absurd hx List.not_mem_nil, hmark⟩
      have hword : Spells g.augmented f.word (closeTokens tokens) := by
        refine ⟨(hd.stacked.isDerivation.derives hwf).2, ?_⟩
        rw [← hmark]
        exact hprogress.of_fresh.2.1.symm
      have hgoal : d.form = [g.start] := by
        rw [hd.form_eq hwf hempty, hlabels, List.append_nil]
      have haccept : Unwinds g.augmented [g.start] d.form [d.record .accept none] := by
        rw [hgoal]
        exact .accept rfl
      have hfirst : (Configuration.fresh (closeTokens tokens) last).form = plain tokens :=
        plain_closeTokens tokens
      rw [← hfirst]
      exact Legal.unwinds hg hruns haccept (legal_fresh g.augmented last hclosed) hword

/-- The small grammar accepts `a`: the empty rule is reduced before the shift,
    and the rule of the start symbol behind it. -/
theorem trace_rightmost_sample :
    (reductions (sampleCompilation.parse sampleGrammar 4 [⟨"a", [97], ⟨0, 1⟩⟩]).steps).map
        Production.text = ["N ➞ ε", "S ➞ N a"] ∧
      sampleCompilation.grammar.DerivesRightmost ["S"]
        (reductions (sampleCompilation.parse sampleGrammar 4
          [⟨"a", [97], ⟨0, 1⟩⟩]).steps).reverse ["a"] := by
  have hend : ∀ t ∈ [(⟨"a", [97], ⟨0, 1⟩⟩ : Token)].dropLast, t.isEnd = false := by decide
  obtain ⟨-, -, hderives⟩ :=
    compiled_sample.trace_rightmost 4 [⟨"a", [97], ⟨0, 1⟩⟩] hend (by decide +kernel)
  exact ⟨by decide +kernel, hderives⟩

end ShiftReduce
