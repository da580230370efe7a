import ShiftReduce.Proofs.Grammar.WellFormed
import ShiftReduce.Proofs.Simulator.Lockstep

/-! # Resuming — a checkpoint restores all that a run can see

    A round that goes on ends behind a shift or a goto, and the step that is
    recorded there has the configuration that the run goes on with.  So a run
    can be cut behind every such step (`Runs.cut`).  A checkpoint has no trees.
    But above the bottom of a stack that has grown from a fresh one, every frame
    has a tree for its symbol, and so has every frame above the bottom of the
    stack that the checkpoint restores.  Up to trees both stacks are the same
    (`start_same`), and the run behind the checkpoint is in lockstep with the
    rest of the run that was left, which is the play from where it was left
    (`play_behind`). -/

namespace ShiftReduce

namespace Simulator

variable {g : Grammar} {t : Table} {c d : Configuration} {n : Nat} {steps : List Step}

/-! ## Cutting a run -/

/-- The configuration that a run goes on with behind a step. -/
structure Step.LeadsTo (st : Step) (d : Configuration) : Prop where
  stack : d.stack = st.stack
  rest : d.rest = st.rest
  index : d.index = Word.next st.index

/-- What a round that goes on does, whatever the table has in it. -/
inductive Moved (g : Grammar) (t : Table) (c : Configuration) : List Step → Configuration → Prop where
  | shift {target : Int} {node : Node} {st : Step} {d : Configuration}
      (haction : t.action? c.state c.lookahead.symbol = some (.shift target))
      (hmove : st.move = .shift c.lookahead.symbol target) (hpending : st.pending = none)
      (hleads : st.LeadsTo d) (hlabel : node.label = c.lookahead.symbol)
      (hstack : d.stack
        = { state := target, symbol := c.lookahead.symbol, node := some node } :: c.stack)
      (hrest : d.rest = c.rest.tail) (hlast : d.last = c.last) : Moved g t c [st] d
  | reduce {r : Production} {source target : Int} {node : Node} {st st' : Step} {d : Configuration}
      (hr : r ∈ g.rules) (hmove : st.move = .reduce r) (hpending : st.pending = some node)
      (hmove' : st'.move = .goTo r source target) (hpending' : st'.pending = none)
      (hleads : st'.LeadsTo d) (hlabel : node.label = r.lhs)
      (hdeep : r.length < c.stack.length) (hpopped : st.stack = c.stack.drop r.length)
      (hstack : d.stack = { state := target, symbol := r.lhs, node := some node } :: st.stack)
      (hrest : d.rest = c.rest) (hlast : d.last = c.last) : Moved g t c [st, st'] d

/-- What goes on has moved, and what ends cannot be resumed. -/
def Turn.Plain (g : Grammar) (t : Table) (c : Configuration) : Turn → Prop
  | .goesOn steps next => Moved g t c steps next
  | .ends steps _ _ => ∀ st ∈ steps, st.kind.isResumable = false

/-- A stop whose move is not resumable leaves nothing a resumption could start from. -/
theorem stop_plain {b : Configuration} {m : Move} (h : m.kind.isResumable = false)
    (accepted : Bool) : (b.stop m accepted).Plain g t c := by
  intro st hst
  rw [List.mem_singleton.mp hst]
  exact h

/-- A reduction by a rule of the grammar is plain, whatever the goto cell answers. -/
theorem reduce_plain {r : Production} (hr : r ∈ g.rules) : (reduce t c r).Plain g t c := by
  rw [reduce]
  by_cases hdeep : c.stack.length ≤ r.length
  · rw [if_pos hdeep]
    exact stop_plain rfl false
  · rw [if_neg hdeep]
    dsimp only
    cases hnode : ((handle c r).2.interior r.lhs r.id (handle c r).1).1 with
    | none => exact stop_plain rfl false
    | some node =>
        have hlabel : node.label = r.lhs := by
          have hone := Same.label_interior (handle c r).2 r.lhs r.id (handle c r).1
          rw [hnode] at hone
          split at hone
          · exact Option.some.inj hone
          · cases hone
        dsimp only
        rw [goTo]
        dsimp only
        split
        · -- without a goto both steps are recorded, and neither can be resumed
          intro st hst
          rcases List.mem_pair.mp hst with rfl | rfl
          · rfl
          · rfl
        · exact .reduce hr rfl rfl rfl rfl ⟨rfl, rfl, rfl⟩ hlabel (by omega) rfl rfl rfl rfl

theorem turn_plain (g : Grammar) (t : Table) (c : Configuration) : (turn g t c).Plain g t c := by
  refine turn_cases (P := Turn.Plain g t c) ?_ ?_ ?_ ?_ ?_
  · intro _
    exact stop_plain rfl false
  · intro _
    exact stop_plain rfl true
  · intro target ha
    exact .shift ha rfl rfl ⟨rfl, rfl, rfl⟩ rfl rfl rfl rfl
  · intro p _ _
    exact stop_plain rfl false
  · intro p r _ hr
    exact reduce_plain (Grammar.mem_of_rule? hr)

theorem moved_of_goesOn (h : turn g t c = .goesOn steps d) : Moved g t c steps d := by
  have hplain := turn_plain g t c
  rw [h] at hplain
  exact hplain

theorem not_resumable_of_ends {accepted : Bool} (h : turn g t c = .ends steps accepted d) :
    ∀ st ∈ steps, st.kind.isResumable = false := by
  have hplain := turn_plain g t c
  rw [h] at hplain
  exact hplain

/-- A run can be cut behind a shift and behind a goto. -/
theorem Runs.cut (h : Runs g t n c steps d) {i : Nat} {st : Step} (hst : steps[i]? = some st)
    (hkind : st.kind.isResumable = true) :
    ∃ m early late e, m ≤ n ∧ Runs g t m c early e ∧ Runs g t (n - m) e late d ∧
      steps = early ++ late ∧ early.length = i + 1 ∧ st.LeadsTo e := by
  induction h generalizing i with
  | refl c => exact nomatch hst
  | @step n c next d steps later hturn hruns ih =>
      -- a step of a later round is found there, with this round in front
      have hlater : ∀ j, later[j]? = some st → i = steps.length + j →
          ∃ m early late e, m ≤ n + 1 ∧ Runs g t m c early e ∧ Runs g t (n + 1 - m) e late d ∧
            steps ++ later = early ++ late ∧ early.length = i + 1 ∧ st.LeadsTo e := by
        intro j hj hi
        obtain ⟨m, early, late, e, hm, hearly, hlate, hsplit, hlength, hleads⟩ := ih hj
        refine ⟨m + 1, steps ++ early, late, e, by omega, .step hturn hearly, ?_, ?_, ?_, hleads⟩
        · rw [Nat.add_sub_add_right]
          exact hlate
        · rw [hsplit, List.append_assoc]
        · rw [List.length_append, hlength, hi]
          omega
      have hround : Moved g t c steps next := moved_of_goesOn hturn
      have hhere : i + 1 = steps.length → st.LeadsTo next →
          ∃ m early late e, m ≤ n + 1 ∧ Runs g t m c early e ∧ Runs g t (n + 1 - m) e late d ∧
            steps ++ later = early ++ late ∧ early.length = i + 1 ∧ st.LeadsTo e := by
        intro hi hleads
        exact ⟨1, steps, later, next, by omega, .single hturn, hruns, rfl, hi.symm, hleads⟩
      cases hround with
      | @shift target node st₀ _ haction hmove hpending hleads =>
          cases i with
          | zero =>
              obtain rfl : st₀ = st := Option.some.inj hst
              exact hhere rfl hleads
          | succ i => exact hlater i hst (Nat.add_comm i 1)
      | @reduce r source target node st₀ st₁ _ hr hmove hpending hmove' hpending' hleads =>
          match i with
          | 0 =>
              obtain rfl : st₀ = st := Option.some.inj hst
              rw [Step.kind, hmove] at hkind
              exact nomatch hkind
          | 1 =>
              obtain rfl : st₁ = st := Option.some.inj hst
              exact hhere rfl hleads
          | i + 2 => exact hlater i hst (Nat.add_comm i 2)

/-- A play can be cut there, too, whether or not it comes to the limit. -/
theorem play_cut {limit i : Nat} {st : Step}
    (hst : (play g t limit limit c []).steps[i]? = some st) (hkind : st.kind.isResumable = true) :
    ∃ m early e, m ≤ limit ∧ Runs g t m c early e ∧
      (play g t limit limit c []).steps.take (i + 1) = early ∧ st.LeadsTo e := by
  -- a step that can be resumed is not one of those that end the play
  have hfront : ∀ {n : Nat} {steps last : List Step} {d : Configuration}, n ≤ limit →
      Runs g t n c steps d → (∀ s ∈ last, s.kind.isResumable = false) →
      (steps ++ last)[i]? = some st → ∃ m early e, m ≤ limit ∧ Runs g t m c early e ∧
        (steps ++ last).take (i + 1) = early ∧ st.LeadsTo e := by
    intro n steps last d hn hruns hlast hst
    by_cases hi : i < steps.length
    · rw [List.getElem?_append_left hi] at hst
      obtain ⟨m, early, late, e, hm, hearly, -, rfl, hlength, hleads⟩ := hruns.cut hst hkind
      refine ⟨m, early, e, Nat.le_trans hm hn, hearly, ?_, hleads⟩
      rw [List.append_assoc, ← hlength, List.take_left]
    · rw [List.getElem?_append_right (Nat.le_of_not_lt hi)] at hst
      rw [hlast st (List.mem_of_getElem? hst)] at hkind
      exact nomatch hkind
  rcases play_cases (g := g) (t := t) limit limit c [] with
    ⟨steps, d, hruns, hres⟩ | ⟨n, steps, d, last, accepted, final, hn, hruns, hend, hres⟩
  · rw [hres] at hst ⊢
    refine hfront (Nat.le_refl limit) hruns ?_ hst
    intro s hs
    rw [List.mem_singleton.mp hs]
    rfl
  · rw [hres] at hst ⊢
    exact hfront (Nat.le_of_lt hn) hruns (not_resumable_of_ends hend) hst

/-! ## Restoring a stack -/

/-- A stack that has grown from a fresh one: every frame above the bottom has a
    tree for its symbol, which is not the end marker. -/
def Grown (stack : List Frame) : Prop :=
  ∃ above, stack = above ++ freshStack ∧
    ∀ f ∈ above, f.symbol ≠ Symbol.endMarker ∧ f.node.map Node.label = some f.symbol

theorem grown_fresh : Grown freshStack :=
  ⟨[], rfl, fun _ hf => nomatch hf⟩

/-- A frame with another symbol than the end marker, its node labelled by the symbol,
    may be pushed. -/
theorem Grown.push {stack : List Frame} (h : Grown stack) {state : Int} {symbol : Symbol}
    {node : Node} (hsymbol : symbol ≠ Symbol.endMarker) (hlabel : node.label = symbol) :
    Grown ({ state, symbol, node := some node } :: stack) := by
  obtain ⟨above, rfl, habove⟩ := h
  refine ⟨_ :: above, rfl, ?_⟩
  intro f hf
  rcases List.mem_cons.mp hf with rfl | hf
  · exact ⟨hsymbol, congrArg some hlabel⟩
  · exact habove f hf

/-- Taking frames off leaves a grown stack, as long as the bottom stays. -/
theorem Grown.drop {stack : List Frame} (h : Grown stack) {k : Nat} (hk : k < stack.length) :
    Grown (stack.drop k) := by
  obtain ⟨above, rfl, habove⟩ := h
  have hle : k ≤ above.length := by
    rw [List.length_append] at hk
    exact Nat.le_of_lt_succ hk
  refine ⟨above.drop k, List.drop_append_of_le_length hle, ?_⟩
  intro f hf
  exact habove f (List.mem_of_mem_drop hf)

/-- Frames above the bottom are restored with their labels. -/
theorem outline_restoreFrames {frames : List Frame}
    (h : ∀ f ∈ frames, f.symbol ≠ Symbol.endMarker ∧ f.node.map Node.label = some f.symbol) :
    ∀ (bottom : Bool) (stack : List Frame) (b : Tree.Builder),
      (restoreFrames bottom stack b (frames.map fun f => (f.state, f.symbol))).1.map Frame.outline
        = (frames.reverse ++ stack).map Frame.outline := by
  induction frames with
  | nil =>
      intro bottom stack b
      rfl
  | cons f frames ih =>
      intro bottom stack b
      obtain ⟨hsymbol, hlabel⟩ := h f List.mem_cons_self
      have hframe : Frame.outline
          { state := f.state, symbol := f.symbol, node := some (b.leaf f.symbol [] Span.zero).1 }
            = f.outline := by
        show (f.state, f.symbol, some f.symbol) = (f.state, f.symbol, f.node.map Node.label)
        rw [hlabel]
      -- a symbol that is not the end marker gets a leaf, even at the bottom
      have hnot : ¬ (bottom && f.symbol == Symbol.endMarker) = true := by
        rw [beq_false_of_ne hsymbol, Bool.and_false]
        exact Bool.false_ne_true
      rw [List.map_cons, restoreFrames, if_neg hnot, List.reverse_cons, List.append_assoc]
      dsimp only
      rw [ih fun f' hf' => h f' (List.mem_cons_of_mem _ hf'), List.map_append, List.map_append,
        List.map_cons, List.singleton_append, List.map_cons, hframe]

/-- A checkpoint behind a grown stack restores it up to trees. -/
theorem outline_restore {st : Step} (h : Grown st.stack) :
    st.checkpoint.restore.1.map Frame.outline = st.stack.map Frame.outline := by
  obtain ⟨above, hstack, habove⟩ := h
  have hlength : st.symbols.length = st.states.length := by
    rw [Step.symbols, Step.states, List.length_map, List.length_map]
  have hzip : st.states.zip st.symbols = st.stack.reverse.map fun f => (f.state, f.symbol) := by
    rw [Step.states, Step.symbols, List.zip_map, List.zip_eq_zipWith, List.zipWith_self, List.map_map]
    rfl
  have hall : ∀ f ∈ above.reverse,
      f.symbol ≠ Symbol.endMarker ∧ f.node.map Node.label = some f.symbol := by
    intro f hf
    exact habove f (List.mem_reverse.mp hf)
  rw [Step.checkpoint, Checkpoint.restore]
  dsimp only
  rw [padFront, padFront, hlength, Nat.max_self, Nat.sub_self, List.replicate_zero,
    List.replicate_zero, List.nil_append, List.nil_append, hzip, hstack, List.reverse_append]
  -- the bottom is restored without a tree, and what is above it with leaves
  show (restoreFrames true freshStack {} (above.reverse.map _)).1.map Frame.outline = _
  rw [outline_restoreFrames hall, List.reverse_reverse]

/-- Behind a checkpoint of a grown stack a run begins as the one that was left
    goes on, but with new tokens. -/
theorem start_same {st : Step} {e : Configuration} (hleads : st.LeadsTo e) (h : Grown e.stack)
    (tokens : List Token) {rest : List Token} {last : Token}
    (hrest : (closeTokens tokens).map Token.face = rest.map Token.face)
    (hlast : ((closeTokens tokens).getLastD (Token.endAt 0)).face = last.face) :
    Same (Configuration.start tokens (some st.checkpoint)) { e with rest, last } := by
  have hne : ¬ (st.checkpoint.states.isEmpty && st.checkpoint.symbols.isEmpty) = true := by
    obtain ⟨above, hstack, -⟩ := h
    rw [hleads.stack] at hstack
    simp [Step.checkpoint, Step.states, hstack, freshStack]
  have hstart : Configuration.start tokens (some st.checkpoint)
      = { stack := st.checkpoint.restore.1, rest := closeTokens tokens
          last := (closeTokens tokens).getLastD (Token.endAt 0)
          index := st.checkpoint.step, builder := st.checkpoint.restore.2 } := by
    rw [Configuration.start]
    dsimp only
    rw [if_neg hne]
  rw [hstart]
  refine ⟨hleads.index.symm, ?_, hrest, hlast⟩
  show st.checkpoint.restore.1.map Frame.outline = e.stack.map Frame.outline
  rw [hleads.stack] at h ⊢
  exact outline_restore h

/-! ## Going on behind a step -/

/-- The end marker comes neither from a shift nor from a reduction. -/
structure Closing (g : Grammar) (t : Table) : Prop where
  no_shift : ∀ k l, t.action? k Symbol.endMarker ≠ some (.shift l)
  lhs_ne : ∀ r ∈ g.rules, r.lhs ≠ Symbol.endMarker

/-- A configuration whose stack has grown from a fresh one and whose input ends
    with an end marker. -/
structure Steady (c : Configuration) : Prop where
  grown : Grown c.stack
  closed : ∃ e, c.rest.getLast? = some e ∧ e.symbol = Symbol.endMarker

/-- One round keeps a configuration steady. -/
theorem Steady.goesOn (h : Closing g t) (hc : Steady c) (hmoved : Moved g t c steps d) :
    Steady d ∧ d.last = c.last := by
  cases hmoved with
  | shift haction hmove hpending hleads hlabel hstack hrest hlast =>
      have hsymbol : c.lookahead.symbol ≠ Symbol.endMarker := by
        intro hend
        rw [hend] at haction
        exact h.no_shift _ _ haction
      refine ⟨⟨?_, ?_⟩, hlast⟩
      · rw [hstack]
        exact hc.grown.push hsymbol hlabel
      · rw [hrest]
        exact c.closed_tail hc.closed hsymbol
  | reduce hr hmove hpending hmove' hpending' hleads hlabel hdeep hpopped hstack hrest hlast =>
      refine ⟨⟨?_, ?_⟩, hlast⟩
      · rw [hstack, hpopped]
        exact (hc.grown.drop hdeep).push (h.lhs_ne _ hr) hlabel
      · rw [hrest]
        exact hc.closed

/-- A run keeps a configuration steady. -/
theorem Steady.runs (h : Closing g t) (hruns : Runs g t n c steps d) :
    Steady c → Steady d ∧ d.last = c.last := by
  induction hruns with
  | refl c =>
      intro hc
      exact ⟨hc, rfl⟩
  | step hturn _ ih =>
      intro hc
      obtain ⟨hnext, hlast⟩ := hc.goesOn h (moved_of_goesOn hturn)
      obtain ⟨hd, hlast'⟩ := ih hnext
      exact ⟨hd, hlast'.trans hlast⟩

/-- If a play ends before the limit, what it does behind a shift or a goto is the
    play from there. -/
theorem play_behind (h : Closing g t) (hc : Steady c) {limit : Nat}
    (hlimit : (play g t limit limit c []).lastLabel ≠ "iteration limit") {i : Nat} {st : Step}
    (hst : (play g t limit limit c []).steps[i]? = some st) (hkind : st.kind.isResumable = true) :
    ∃ e, st.LeadsTo e ∧ Steady e ∧ e.last = c.last ∧ e.rest <:+ c.rest ∧
      (play g t limit limit e []).steps = (play g t limit limit c []).steps.drop (i + 1) ∧
      (play g t limit limit e []).accepted = (play g t limit limit c []).accepted := by
  obtain ⟨m, early, e, -, hearly, htake, hleads⟩ := play_cut hst hkind
  obtain ⟨he, hlast⟩ := Steady.runs h hearly hc
  obtain ⟨hsteps, haccepted⟩ := play_from hearly hlimit
  refine ⟨e, hleads, he, hlast, hearly.rest_suffix, ?_, haccepted.symm⟩
  have hsplit := List.take_append_drop (i + 1) (play g t limit limit c []).steps
  rw [htake] at hsplit
  exact (List.append_cancel_left (hsplit.trans hsteps)).symm

end Simulator

end ShiftReduce
