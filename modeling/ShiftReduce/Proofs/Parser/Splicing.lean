import ShiftReduce.Proofs.Parser.Resumption

/-! # Splicing — other input behind a shift

    A shift is chosen under the token that it consumes.  So nothing that a run
    does up to a shift depends on what is behind the shifted token, and the run
    takes place on every input that begins with the same tokens
    (`Runs.replay_shift`).  Behind the shift, a parse of the new input from the
    checkpoint there is in lockstep with the parse of the whole.  Behind a goto
    this fails: the reduction before it was chosen under a token that is not
    consumed yet. -/

namespace ShiftReduce

namespace Simulator

variable {g : Grammar} {t : Table} {c d : Configuration} {n : Nat} {steps : List Step}

/-! ## Runs that end with a shift -/

/-- The last round of a run. -/
theorem Runs.unsnoc (h : Runs g t n c steps d) {st : Step} (hlast : steps.getLast? = some st) :
    ∃ m b early late, n = m + 1 ∧ Runs g t m c early b ∧ turn g t b = .goesOn late d ∧
      steps = early ++ late ∧ late.getLast? = some st := by
  induction h with
  | refl c => cases hlast
  | @step n c next d steps later hturn hruns ih =>
      cases hruns with
      | refl =>
          rw [List.append_nil] at hlast ⊢
          exact ⟨0, c, [], steps, rfl, .refl c, hturn, rfl, hlast⟩
      | @step n _ _ _ front back hturn' hruns' =>
          have hne : front ++ back ≠ [] := by
            cases moved_of_goesOn hturn' with
            | shift => exact List.cons_ne_nil _ _
            | reduce => exact List.cons_ne_nil _ _
          rw [List.getLast?_append_of_ne_nil _ hne] at hlast
          obtain ⟨m, b, early, late, hm, hearly, hb, hsplit, hst⟩ := ih hlast
          refine ⟨m + 1, b, steps ++ early, late, by omega, .step hturn hearly, hb, ?_, hst⟩
          rw [hsplit, List.append_assoc]

/-- A run to a shift takes place on every input that has the same tokens up to
    the shifted one. -/
theorem Runs.replay_shift (h : Runs g t n c steps d) {st : Step} (hlast : steps.getLast? = some st)
    (hkind : st.kind = .shift) (hmore : d.rest ≠ []) {front : List Token}
    (hfront : c.rest = front ++ d.rest) (behind : List Token) (last : Token) :
    ∃ steps', Runs g t n (c.withInput (front ++ behind) last) steps' (d.withInput behind last) ∧
      List.Forall₂ Step.Resembles steps steps' := by
  obtain ⟨m, b, early, late, rfl, hearly, hturn, rfl, hst⟩ := h.unsnoc hlast
  obtain ⟨rfl, hrest⟩ : late = [st] ∧ d.rest = b.rest.tail := by
    cases moved_of_goesOn hturn with
    | @shift _ _ st₀ _ _ _ _ _ _ _ hrest =>
        obtain rfl : st₀ = st := Option.some.inj hst
        exact ⟨rfl, hrest⟩
    | @reduce _ _ _ _ _ st₁ _ _ _ _ hmove' =>
        obtain rfl : st₁ = st := Option.some.inj hst
        rw [Step.kind, hmove'] at hkind
        cases hkind
  -- before the last round, the shifted token is the next one
  obtain ⟨x, hx⟩ : ∃ x, b.rest = [x] ++ d.rest := by
    cases hb : b.rest with
    | nil =>
        rw [hb] at hrest
        exact absurd hrest hmore
    | cons x rest =>
        rw [hb] at hrest
        exact ⟨x, congrArg (x :: ·) hrest.symm⟩
  obtain ⟨pre, rfl⟩ : ∃ pre, front = pre ++ [x] := by
    obtain ⟨pre, hpre⟩ := hearly.rest_suffix
    rw [hx, hfront, ← List.append_assoc] at hpre
    exact ⟨pre, (List.append_cancel_right hpre).symm⟩
  obtain ⟨early', hearly', hresembles⟩ :=
    hearly.replay (pre ++ [x]) [x] hfront hx (List.cons_ne_nil x []) behind last
  have hl : (b.withInput ([x] ++ behind) last).lookahead = b.lookahead := by
    rw [Configuration.lookahead, Configuration.lookahead, hx]
    rfl
  have halike := turn_alike (g := g) (t := t) hl
  rw [hturn] at halike
  generalize hturn' : turn g t (b.withInput ([x] ++ behind) last) = other at halike
  cases halike with
  | stays h =>
      rw [hx] at h
      exact absurd (congrArg List.length h) (by simp)
  | moves _ hlate =>
      exact ⟨_, hearly'.trans (.single hturn'), List.rel_append hresembles hlate⟩

/-- A closed list of tokens has its end marker at least. -/
theorem ne_nil_of_closed {tokens : List Token}
    (h : ∃ e, tokens.getLast? = some e ∧ e.symbol = Symbol.endMarker) : tokens ≠ [] := by
  obtain ⟨e, he, -⟩ := h
  exact List.ne_nil_of_mem (List.mem_of_getLast? he)

/-- The tokens that a run consumes are as many as its shifts, and none of them is
    the end of the input. -/
theorem Steady.consumed (h : Closing g t) (hruns : Runs g t n c steps d) : Steady c →
    ∃ front, c.rest = front ++ d.rest ∧ front.length = (shifted steps).length ∧
      ∀ x ∈ front, x.isEnd = false := by
  induction hruns with
  | refl c =>
      intro _
      exact ⟨[], rfl, rfl, fun _ hx => nomatch hx⟩
  | @step n c next d steps later hturn _ ih =>
      intro hc
      have hmoved := moved_of_goesOn hturn
      obtain ⟨front, hfront, hlength, hplain⟩ := ih (hc.goesOn h hmoved).1
      cases hmoved with
      | @shift target node st _ haction hmove hpending hleads hlabel hstack hrest hlast =>
          obtain ⟨x, rest, hx⟩ := List.exists_cons_of_ne_nil (ne_nil_of_closed hc.closed)
          have hahead : c.lookahead = x := by
            rw [Configuration.lookahead, hx]
            rfl
          refine ⟨x :: front, ?_, ?_, ?_⟩
          · rw [hx, List.tail_cons] at hrest
            rw [hx, ← hrest, hfront, List.cons_append]
          · rw [shifted_append, List.length_append, List.length_cons, hlength]
            simp [shifted, Step.shifted?_of_shift hmove, Nat.add_comm]
          · -- the end marker is not among the tokens, as no cell shifts it
            intro y hy
            rcases List.mem_cons.mp hy with rfl | hy
            · rw [Token.isEnd, beq_eq_false_iff_ne]
              intro hend
              rw [hahead, hend] at haction
              exact h.no_shift _ _ haction
            · exact hplain y hy
      | reduce hr hmove hpending hmove' hpending' hleads hlabel hdeep hpopped hstack hrest hlast =>
          refine ⟨front, by rw [← hrest]; exact hfront, ?_, hplain⟩
          rw [shifted_append, List.length_append, hlength]
          simp [shifted, Step.shifted?_of_reduce hmove, Step.shifted?_of_goTo hmove']

/-! ## Closed inputs -/

/-- What is in front of some closed input was not added to close it. -/
theorem take_of_closeTokens {tokens front rest : List Token}
    (h : closeTokens tokens = front ++ rest) (hrest : rest ≠ []) :
    tokens.take front.length = front := by
  rcases closeTokens_cases tokens with ⟨heq, -⟩ | ⟨position, heq⟩
  · rw [← heq, h, List.take_left]
  · -- the token that was added is the last one of the rest
    obtain ⟨body, e, rfl⟩ := (List.eq_nil_or_concat' rest).resolve_left hrest
    rw [heq, ← List.append_assoc] at h
    rw [(List.append_inj' h rfl).1, List.take_left]

/-- Closing an input behind some tokens is closing it alone, up to the place of
    the end. -/
theorem closeTokens_append {front : List Token} (hfront : front ≠ [])
    (hplain : ∀ x ∈ front, x.isEnd = false) (tokens : List Token) :
    ∃ behind, closeTokens (front ++ tokens) = front ++ behind ∧
      (closeTokens tokens).map Token.face = behind.map Token.face := by
  rcases List.eq_nil_or_concat' tokens with rfl | ⟨body, e, rfl⟩
  · obtain ⟨pre, x, rfl⟩ := (List.eq_nil_or_concat' front).resolve_left hfront
    refine ⟨[Token.endAt x.span.stop], ?_, rfl⟩
    rw [List.append_nil, closeTokens, List.getLast?_concat]
    dsimp only
    rw [hplain x (by simp)]
    rfl
  · refine ⟨closeTokens (body ++ [e]), ?_, rfl⟩
    rw [← List.append_assoc, closeTokens, closeTokens, List.getLast?_concat, List.getLast?_concat]
    dsimp only
    split
    · exact List.append_assoc _ _ _
    · simp only [List.append_assoc]

/-- The last of tokens that look the same looks the same. -/
theorem face_getLastD {tokens tokens' : List Token}
    (h : tokens.map Token.face = tokens'.map Token.face) (e : Token) :
    (tokens.getLastD e).face = (tokens'.getLastD e).face := by
  have hlast := congrArg (fun faces => (List.getLast? faces).getD e.face) h
  simp only [List.getLast?_map, Option.getD_map] at hlast
  rw [List.getLastD_eq_getLast?, List.getLastD_eq_getLast?]
  exact hlast

/-! ## Spliced plays -/

/-- What there is at a shift of a play: the run that leads to it, and the tokens
    that it has consumed. -/
structure ShiftedAt (g : Grammar) (t : Table) (tokens : List Token) (k : Nat) (st : Step)
    (early : List Step) (e : Configuration) (front : List Token) : Prop where
  runs : ∃ m, Runs g t m (.start tokens none) early e
  length : early.length = k + 1
  last : early.getLast? = some st
  leads : st.LeadsTo e
  steady : Steady e
  tokens_eq : closeTokens tokens = front ++ e.rest
  count : front.length = (shifted early).length
  front_ne : front ≠ []
  plain : ∀ x ∈ front, x.isEnd = false

/-- At every shift of a play there is the run that has led to it, with what it has
    consumed. -/
theorem exists_shiftedAt (h : Closing g t) {limit k : Nat} {tokens : List Token} {st : Step}
    (hst : (play g t limit limit (.start tokens none) []).steps[k]? = some st)
    (hkind : st.kind = .shift) :
    ∃ early e front,
      (play g t limit limit (.start tokens none) []).steps.take (k + 1) = early ∧
        ShiftedAt g t tokens k st early e front := by
  have hresumable : st.kind.isResumable = true := by
    rw [hkind]
    rfl
  obtain ⟨m, early, e, -, hearly, htake, hleads⟩ := play_cut hst hresumable
  have hlast : early.getLast? = some st := by
    rw [← htake, List.getLast?_take, if_neg (Nat.succ_ne_zero k), Nat.add_sub_cancel, hst]
    rfl
  have hfresh : Steady (.start tokens none) := ⟨grown_fresh, closeTokens_closed tokens⟩
  obtain ⟨front, hfront, hcount, hplain⟩ := Steady.consumed h hearly hfresh
  refine ⟨early, e, front, htake, ⟨m, hearly⟩, ?_, hlast, hleads,
    (Steady.runs h hearly hfresh).1, hfront, hcount, ?_, hplain⟩
  · have hlt := (List.getElem?_eq_some_iff.mp hst).1
    rw [← htake, List.length_take]
    omega
  · -- the shift itself is one of those that are counted
    obtain ⟨x, hx⟩ : ∃ x, st.shifted? = some x := by
      rw [Step.kind] at hkind
      rw [Step.shifted?]
      cases hmove : st.move with
      | shift x target => exact ⟨x, rfl⟩
      | _ => simp [hmove, Move.kind] at hkind
    have hmem : x ∈ shifted early :=
      List.mem_filterMap.mpr ⟨st, List.mem_of_getLast? hlast, hx⟩
    rintro rfl
    rw [List.eq_nil_of_length_eq_zero hcount.symm] at hmem
    cases hmem

/-- A play on the consumed tokens with others behind them does the same up to the
    shift, and what follows is in lockstep with the play of the others behind the
    checkpoint. -/
theorem ShiftedAt.play {tokens front : List Token} {k : Nat} {st : Step} {early : List Step}
    {e : Configuration} (h : ShiftedAt g t tokens k st early e front) (hkind : st.kind = .shift)
    (tokens' : List Token) {limit : Nat} {F : Result}
    (hF : F = play g t limit limit (.start (front ++ tokens') none) [])
    (hlimit : F.lastLabel ≠ "iteration limit") :
    List.Forall₂ Step.Resembles early (F.steps.take (k + 1)) ∧
      (play g t limit limit (.start tokens' (some st.checkpoint)) []).steps.map Step.sight
        = (F.steps.drop (k + 1)).map Step.sight ∧
      (play g t limit limit (.start tokens' (some st.checkpoint)) []).accepted = F.accepted := by
  obtain ⟨m, hruns⟩ := h.runs
  obtain ⟨behind, hbehind, hface⟩ := closeTokens_append h.front_ne h.plain tokens'
  have hbehind_ne : behind ≠ [] := by
    rintro rfl
    exact ne_nil_of_closed (closeTokens_closed tokens') (List.map_eq_nil_iff.mp hface)
  obtain ⟨early', hruns', hresembles⟩ := hruns.replay_shift h.last hkind
    (ne_nil_of_closed h.steady.closed) h.tokens_eq behind
    ((front ++ behind).getLastD (Token.endAt 0))
  -- the spliced input is the old one with other tokens behind those consumed
  have hstart : Configuration.start (front ++ tokens') none
      = (Configuration.start tokens none).withInput (front ++ behind)
        ((front ++ behind).getLastD (Token.endAt 0)) := by
    rw [Configuration.start, hbehind]
    rfl
  rw [hstart] at hF
  rw [hF] at hlimit
  obtain ⟨hsteps, haccepted⟩ := play_from hruns' hlimit
  rw [← hF] at hsteps haccepted
  have hlength : early'.length = k + 1 := by
    rw [← hresembles.length_eq, h.length]
  -- where the resumed parse begins, the spliced one has just come to, up to positions
  have hsame : Same (.start tokens' (some st.checkpoint))
      (e.withInput behind ((front ++ behind).getLastD (Token.endAt 0))) := by
    refine start_same h.leads h.steady.grown tokens' hface ?_
    rw [face_getLastD hface, List.getLastD_eq_getLast?, List.getLastD_eq_getLast?,
      List.getLast?_append_of_ne_nil _ hbehind_ne]
  obtain ⟨hsights, haccepted'⟩ := hsame.play g t limit
  refine ⟨?_, ?_, haccepted'.trans haccepted.symm⟩
  · rw [hsteps, ← hlength, List.take_left]
    exact hresembles
  · rw [hsteps, ← hlength, List.drop_left]
    exact hsights

end Simulator

open Simulator

/-- **Splicing.**  Let a grammar be assembled, let `st` be a shift of the parse of
    some tokens, and let `p` tokens be consumed there.  Let the parse of these `p`
    tokens with other tokens behind them end before the limit.  It has the same
    moves and stacks up to the shift.  What follows is the parse of the other
    tokens from the checkpoint at the shift, step by step, up to places and trees;
    and one is accepted if and only if the other is. -/
theorem Compilation.spliced_parse {g : Grammar} {c : Compilation} {name : String} {start : Symbol}
    {terminals nonterminals : List Symbol} {rules : List (Option Production)}
    (hg : Grammar.assemble name start terminals nonterminals rules = .ok g)
    (hc : Compilation.compile g = .ok c) (hrules : g.size < 2147483646) (limit : Nat)
    (tokens tokens' : List Token) {R F : Result} {k p : Nat} {st : Step}
    (hR : R = (c.parser g limit).parseTokens tokens none) (hst : R.steps[k]? = some st)
    (hkind : st.kind = .shift) (hp : p = (shifted (R.steps.take (k + 1))).length)
    (hF : F = (c.parser g limit).parseTokens (tokens.take p ++ tokens') none)
    (hlimit : F.lastLabel ≠ "iteration limit") :
    p ≤ tokens.length ∧ closeTokens tokens = tokens.take p ++ st.rest ∧
      List.Forall₂ Step.Resembles (R.steps.take (k + 1)) (F.steps.take (k + 1)) ∧
      List.Forall₂ Step.Agrees
        ((c.parser g limit).parseTokens tokens' (some st.checkpoint)).steps (F.steps.drop (k + 1)) ∧
      ((c.parser g limit).parseTokens tokens' (some st.checkpoint)).accepted = F.accepted := by
  have hclosing := closing_augmented (Grammar.assemble_checked hg).1 hrules
  have hplay : ∀ tokens resume, (c.parser g limit).parseTokens tokens resume
      = play g.augmented (Table.ofGrammar g.augmented) limit limit
        (Configuration.start tokens resume) [] :=
    Compilation.parseTokens_eq (Grammar.ensureAugmented_of_assemble hg) hc limit
  rw [hplay] at hR hF ⊢
  rw [hR] at hst hp ⊢
  -- the step cuts the parse in two: what it has
  -- consumed, and a checkpoint that stands for it
  obtain ⟨early, e, front, htake, hat⟩ := exists_shiftedAt hclosing hst hkind
  rw [htake] at hp ⊢
  have hfront : tokens.take front.length = front :=
    take_of_closeTokens hat.tokens_eq (ne_nil_of_closed hat.steady.closed)
  obtain rfl : p = front.length := hp.trans hat.count.symm
  rw [hfront] at hF ⊢
  obtain ⟨hresembles, hsights, haccepted⟩ := hat.play hkind tokens' hF hlimit
  refine ⟨?_, ?_, hresembles, ?_, haccepted⟩
  · have hlength := congrArg List.length hfront
    rw [List.length_take] at hlength
    omega
  · rw [hat.tokens_eq, hat.leads.rest]
  · rw [← List.forall₂_eq_eq_eq, List.forall₂_map_left_iff, List.forall₂_map_right_iff] at hsights
    exact hsights.imp fun _ _ => .of_sight

/-- The small grammar reads a letter and another one behind it that it has no use
    for. -/
theorem spliced_parse_sample :
    ∃ st F, ((sampleCompilation.parser sampleGrammar 4).parseTokens [⟨"a", [97], ⟨0, 1⟩⟩]
        none).steps[2]? = some st ∧ st.kind = .shift ∧
      F = (sampleCompilation.parser sampleGrammar 4).parseTokens
        [⟨"a", [97], ⟨0, 1⟩⟩, ⟨"b", [98], ⟨0, 1⟩⟩] none ∧
      F.steps.map Step.kind = [.reduce, .goTo, .shift, .syntaxError] ∧
      List.Forall₂ Step.Agrees ((sampleCompilation.parser sampleGrammar 4).parseTokens
        [⟨"b", [98], ⟨0, 1⟩⟩] (some st.checkpoint)).steps (F.steps.drop 3) := by
  have hassembled : Grammar.assemble "sample" "S" ["a", "b"] ["S", "N"]
      [some { id := 0, lhs := "S", body := ["N", "a"] }, some { id := 1, lhs := "N", body := [] }]
        = .ok sampleGrammar := rfl
  have hstep : (((sampleCompilation.parser sampleGrammar 4).parseTokens [⟨"a", [97], ⟨0, 1⟩⟩]
      none).steps[2]?.map Step.kind) = some .shift := by decide +kernel
  obtain ⟨st, hst, hkind⟩ := Option.map_eq_some_iff.mp hstep
  have hone : 1 = (shifted (((sampleCompilation.parser sampleGrammar 4).parseTokens
      [⟨"a", [97], ⟨0, 1⟩⟩] none).steps.take (2 + 1))).length := by decide +kernel
  obtain ⟨-, -, -, hagrees, -⟩ := Compilation.spliced_parse hassembled compiled_sample.compiled
    (by decide) 4 [⟨"a", [97], ⟨0, 1⟩⟩] [⟨"b", [98], ⟨0, 1⟩⟩] rfl hst hkind hone rfl
    (by decide +kernel)
  exact ⟨st, _, hst, hkind, rfl, by decide +kernel, hagrees⟩

end ShiftReduce
