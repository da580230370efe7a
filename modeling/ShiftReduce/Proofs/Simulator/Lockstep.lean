import ShiftReduce.Proofs.Simulator.Rounds
import ShiftReduce.Proofs.Token.Lexer

/-! # Lockstep — what a run shows does not depend on trees and places

    Two configurations are the same up to trees if their stacks have the same
    states, symbols and labels of trees, and their inputs the same symbols and
    lexemes.  Such configurations move in lockstep, whatever the grammar and
    the table are: the parser reads states and symbols only, and whether a
    reduction finds its trees depends on where there are trees and not on what
    is below their roots.  So the traces of both runs look the same
    (`play_same`): the same moves, stacks, labels and inputs, step by step. -/

namespace ShiftReduce

namespace Simulator

/-- A move without the place of its token. -/
def Move.unplaced : Move → Move
  | .syntaxError state token => .syntaxError state { token with span := Span.zero }
  | m => m

@[simp] theorem Move.kind_unplaced (m : Move) : m.unplaced.kind = m.kind := by
  cases m <;> rfl

@[simp] theorem Move.action?_unplaced (m : Move) : m.unplaced.action? = m.action? := by
  cases m <;> rfl

@[simp] theorem Move.label_unplaced (m : Move) : m.unplaced.label = m.label := by
  cases m <;> rfl

@[simp] theorem Move.explanation_unplaced (m : Move) : m.unplaced.explanation = m.explanation := by
  cases m <;> rfl

/-- A frame with no more of its tree than the label. -/
def Frame.outline (f : Frame) : Int × Symbol × Option Symbol :=
  (f.state, f.symbol, f.node.map Node.label)

/-- A step without places and without what is below the roots of its trees. -/
structure Step.Sight where
  index : Int
  move : Move
  stack : List (Int × Symbol × Option Symbol)
  pending : Option Symbol
  rest : List (Symbol × Bytes)
  token : Symbol × Bytes

/-- What can be seen of a step. -/
def Step.sight (s : Step) : Step.Sight :=
  { index := s.index, move := s.move.unplaced, stack := s.stack.map Frame.outline
    pending := s.pending.map Node.label, rest := s.rest.map Token.face, token := s.token.face }

/-! ## What a sight determines -/

section Sights

variable {s s' : Step}

theorem Step.states_eq (h : s.sight = s'.sight) : s.states = s'.states := by
  have hstack : s.stack.map Frame.outline = s'.stack.map Frame.outline := congrArg Sight.stack h
  have hstates := congrArg (List.map fun o : Int × Symbol × Option Symbol => o.1) hstack
  rw [List.map_map, List.map_map] at hstates
  rw [Step.states, Step.states, List.map_reverse, List.map_reverse]
  exact congrArg List.reverse hstates

theorem Step.symbols_eq (h : s.sight = s'.sight) : s.symbols = s'.symbols := by
  have hstack : s.stack.map Frame.outline = s'.stack.map Frame.outline := congrArg Sight.stack h
  have hsymbols := congrArg (List.map fun o : Int × Symbol × Option Symbol => o.2.1) hstack
  rw [List.map_map, List.map_map] at hsymbols
  rw [Step.symbols, Step.symbols, List.map_reverse, List.map_reverse]
  exact congrArg List.reverse hsymbols

theorem Step.input_eq (h : s.sight = s'.sight) : s.input = s'.input := by
  have hrest : s.rest.map Token.face = s'.rest.map Token.face := congrArg Sight.rest h
  have hshown : ∀ t : Token, t.shown
      = if t.face.1 == Symbol.endMarker then Bytes.ofText Symbol.endMarker else t.face.2 := by
    intro t
    rfl
  have hinput := congrArg (List.map fun f : Symbol × Bytes =>
    if f.1 == Symbol.endMarker then Bytes.ofText Symbol.endMarker else f.2) hrest
  rw [List.map_map, List.map_map] at hinput
  rw [Step.input, Step.input, List.map_congr_left fun t _ => hshown t,
    List.map_congr_left (l := s'.rest) fun t _ => hshown t]
  exact hinput

/-- The labels of a forest are those of its frames, bottom first, and the
    pending one. -/
theorem Step.labels_forest (s : Step) :
    s.forest.labels
      = (s.stack.map Frame.outline).reverse.filterMap (fun o => o.2.2)
        ++ (s.pending.map Node.label).toList := by
  have hframes : ∀ frames : List Frame, (frames.filterMap Frame.node).map Node.label
      = (frames.map Frame.outline).filterMap fun o => o.2.2 := by
    intro frames
    rw [List.map_filterMap, List.filterMap_map]
    rfl
  rw [Step.forest, Forest.labels, List.map_append, hframes, List.map_reverse]
  cases s.pending with
  | none => rfl
  | some n => rfl

theorem Step.labels_eq (h : s.sight = s'.sight) : s.forest.labels = s'.forest.labels := by
  have hstack : s.stack.map Frame.outline = s'.stack.map Frame.outline := congrArg Sight.stack h
  have hpending : s.pending.map Node.label = s'.pending.map Node.label := congrArg Sight.pending h
  rw [Step.labels_forest, Step.labels_forest, hstack, hpending]

theorem Step.unplaced_eq (h : s.sight = s'.sight) : s.move.unplaced = s'.move.unplaced :=
  congrArg Sight.move h

theorem Step.kind_eq (h : s.sight = s'.sight) : s.kind = s'.kind := by
  have hkind := congrArg Move.kind (Step.unplaced_eq h)
  rw [Move.kind_unplaced, Move.kind_unplaced] at hkind
  exact hkind

theorem Step.checkpoint_eq (h : s.sight = s'.sight) : s.checkpoint = s'.checkpoint := by
  have hindex : s.index = s'.index := congrArg Sight.index h
  rw [Step.checkpoint, Step.checkpoint, Step.states_eq h, Step.symbols_eq h, hindex]

/-- In traces that look the same, every step has one that looks like it. -/
theorem Step.exists_same {steps steps' : List Step}
    (h : steps.map Step.sight = steps'.map Step.sight) (hs : s ∈ steps) :
    ∃ s' ∈ steps', s'.sight = s.sight := by
  refine List.mem_map.mp ?_
  rw [← h]
  exact List.mem_map_of_mem hs

end Sights

/-! ## Rounds in lockstep -/

/-- The same configuration up to trees and places. -/
structure Same (c d : Configuration) : Prop where
  index : c.index = d.index
  stack : c.stack.map Frame.outline = d.stack.map Frame.outline
  rest : c.rest.map Token.face = d.rest.map Token.face
  last : c.last.face = d.last.face

/-- Two rounds that look the same and come to the same configuration. -/
inductive Turn.Same : Turn → Turn → Prop where
  | goesOn {steps steps' : List Step} {next next' : Configuration}
      (hsteps : steps.map Step.sight = steps'.map Step.sight) (h : Simulator.Same next next') :
      Turn.Same (.goesOn steps next) (.goesOn steps' next')
  | ends {steps steps' : List Step} {accepted : Bool} {final final' : Configuration}
      (hsteps : steps.map Step.sight = steps'.map Step.sight) :
      Turn.Same (.ends steps accepted final) (.ends steps' accepted final')

namespace Same

variable {g : Grammar} {t : Table} {c d : Configuration}

theorem state_eq (h : Same c d) : c.state = d.state := by
  have hhead := congrArg (fun os : List (Int × Symbol × Option Symbol) =>
    (os.head?.map Prod.fst).getD 0) h.stack
  simp only [List.head?_map, Option.map_map] at hhead
  exact hhead

theorem lookahead_eq (h : Same c d) : c.lookahead.face = d.lookahead.face := by
  have hrest := h.rest
  rw [Configuration.lookahead, Configuration.lookahead]
  cases hc : c.rest with
  | nil =>
      rw [hc, List.map_nil] at hrest
      rw [List.map_eq_nil_iff.mp hrest.symm]
      exact h.last
  | cons a rest =>
      rw [hc, List.map_cons] at hrest
      obtain ⟨a', rest', hd, ha, -⟩ := List.map_eq_cons_iff.mp hrest.symm
      rw [hd]
      exact ha.symm

theorem length_eq (h : Same c d) : c.stack.length = d.stack.length := by
  have hlength := congrArg List.length h.stack
  rw [List.length_map, List.length_map] at hlength
  exact hlength

/-- Moves that look the same are recorded alike. -/
theorem record (h : Same c d) {m m' : Move} (hm : m.unplaced = m'.unplaced) {p p' : Option Node}
    (hp : p.map Node.label = p'.map Node.label) : (c.record m p).sight = (d.record m' p').sight := by
  show Step.Sight.mk c.index m.unplaced (c.stack.map Frame.outline) (p.map Node.label)
      (c.rest.map Token.face) c.lookahead.face
    = Step.Sight.mk d.index m'.unplaced (d.stack.map Frame.outline) (p'.map Node.label)
      (d.rest.map Token.face) d.lookahead.face
  rw [h.index, hm, h.stack, hp, h.rest, h.lookahead_eq]

theorem tick (h : Same c d) : Same c.tick d.tick :=
  ⟨congrArg Word.next h.index, h.stack, h.rest, h.last⟩

theorem stop (h : Same c d) {m m' : Move} (hm : m.unplaced = m'.unplaced) (accepted : Bool) :
    (c.stop m accepted).Same (d.stop m' accepted) := by
  refine .ends ?_
  rw [List.map_singleton, List.map_singleton, h.record hm rfl]

theorem shift (h : Same c d) (target : Int) : (shift c target).Same (shift d target) := by
  have hface := h.lookahead_eq
  have hsymbol := Token.symbol_eq hface
  rw [Simulator.shift, Simulator.shift]
  have hnext : Same
      { c with
        stack := { state := target, symbol := c.lookahead.symbol, node := some (c.builder.leaf
          c.lookahead.symbol (if c.lookahead.isEnd then [] else c.lookahead.lexeme)
          c.lookahead.span).1 } :: c.stack
        rest := c.rest.tail
        builder := (c.builder.leaf c.lookahead.symbol
          (if c.lookahead.isEnd then [] else c.lookahead.lexeme) c.lookahead.span).2 }
      { d with
        stack := { state := target, symbol := d.lookahead.symbol, node := some (d.builder.leaf
          d.lookahead.symbol (if d.lookahead.isEnd then [] else d.lookahead.lexeme)
          d.lookahead.span).1 } :: d.stack
        rest := d.rest.tail
        builder := (d.builder.leaf d.lookahead.symbol
          (if d.lookahead.isEnd then [] else d.lookahead.lexeme) d.lookahead.span).2 } := by
    -- spans and numbers of nodes are not part of the outline of a frame
    refine ⟨h.index, ?_, ?_, h.last⟩
    · show (target, c.lookahead.symbol, some c.lookahead.symbol) :: c.stack.map Frame.outline
        = (target, d.lookahead.symbol, some d.lookahead.symbol) :: d.stack.map Frame.outline
      rw [hsymbol, h.stack]
    · show c.rest.tail.map Token.face = d.rest.tail.map Token.face
      rw [List.map_tail, List.map_tail, h.rest]
  refine .goesOn ?_ hnext.tick
  rw [List.map_singleton, List.map_singleton]
  refine congrArg (fun s => [s]) (hnext.record ?_ rfl)
  rw [hsymbol]

/-- There is a node above some trees if all of them are there. -/
theorem label_interior (b : Tree.Builder) (label : Symbol) (rule : Int) (ns : List (Option Node)) :
    (b.interior label rule ns).1.map Node.label
      = if ns.all Option.isSome then some label else none := by
  have hpresent : ((ns.mapM fun n => n).map fun _ => label)
      = if ns.all Option.isSome then some label else none := by
    induction ns with
    | nil => rfl
    | cons n ns ih =>
        cases n with
        | none => rfl
        | some n =>
            rw [List.all_cons, Option.isSome_some, Bool.true_and, ← ih, List.mapM_cons]
            cases (ns.mapM fun n => n : Option (List Node)) with
            | none => rfl
            | some ns => rfl
  rw [Tree.Builder.interior, Option.map_map]
  exact hpresent

/-- A reduction finds all of its trees in both configurations or in none. -/
theorem handle (h : Same c d) (r : Production) :
    (handle c r).1.all Option.isSome = (handle d r).1.all Option.isSome := by
  rw [Simulator.handle, Simulator.handle]
  by_cases hzero : r.length = 0
  · rw [if_pos hzero, if_pos hzero]
    rfl
  · have hpresent : ∀ frames : List Frame,
        ((frames.take r.length).reverse.map Frame.node).all Option.isSome
          = ((frames.map Frame.outline).take r.length).all fun o => o.2.2.isSome := by
      intro frames
      rw [List.map_reverse, List.all_reverse, List.all_map, ← List.map_take, List.all_map]
      refine congrArg (List.all _) (funext ?_)
      intro frame
      exact (Option.isSome_map (f := Node.label)).symm
    rw [if_neg hzero, if_neg hzero, hpresent, hpresent, h.stack]

theorem goTo (h : Same c d) (r : Production) {n n' : Node} (hn : n.label = n'.label) :
    (goTo t c r n).Same (goTo t d r n') := by
  have hlabel : (some n).map Node.label = (some n').map Node.label := congrArg some hn
  -- both sides look into the same cell
  have hstate : c.tick.state = d.tick.state := h.tick.state_eq
  rw [Simulator.goTo, Simulator.goTo]
  dsimp only
  rw [hstate]
  cases t.goto? d.tick.state r.lhs with
  | none =>
      refine .ends ?_
      show [Step.sight _, Step.sight _] = [Step.sight _, Step.sight _]
      rw [h.record rfl hlabel, h.tick.record rfl hlabel]
  | some target =>
      have hnext : Same
          { c.tick with
            stack := { state := target, symbol := r.lhs, node := some n } :: c.tick.stack }
          { d.tick with
            stack := { state := target, symbol := r.lhs, node := some n' } :: d.tick.stack } := by
        refine ⟨h.tick.index, ?_, h.rest, h.last⟩
        show (target, r.lhs, some n.label) :: c.stack.map Frame.outline
          = (target, r.lhs, some n'.label) :: d.stack.map Frame.outline
        rw [hn, h.stack]
      refine .goesOn ?_ hnext.tick
      show [Step.sight _, Step.sight _] = [Step.sight _, Step.sight _]
      rw [h.record rfl hlabel]
      exact congrArg (fun sight => [_, sight]) (hnext.record rfl rfl)

theorem reduce (h : Same c d) (r : Production) : (reduce t c r).Same (reduce t d r) := by
  rw [Simulator.reduce, Simulator.reduce, h.length_eq]
  by_cases hdeep : d.stack.length ≤ r.length
  · rw [if_pos hdeep, if_pos hdeep]
    exact h.stop rfl false
  · rw [if_neg hdeep, if_neg hdeep]
    dsimp only
    -- the handles differ in spans only, so both sides have a node or neither has
    have hpopped : ∀ b b' : Tree.Builder, Same { c with stack := c.stack.drop r.length, builder := b }
        { d with stack := d.stack.drop r.length, builder := b' } := by
      intro b b'
      refine ⟨h.index, ?_, h.rest, h.last⟩
      show (c.stack.drop r.length).map Frame.outline = (d.stack.drop r.length).map Frame.outline
      rw [List.map_drop, List.map_drop, h.stack]
    have hc := label_interior (Simulator.handle c r).2 r.lhs r.id (Simulator.handle c r).1
    have hd := label_interior (Simulator.handle d r).2 r.lhs r.id (Simulator.handle d r).1
    rw [h.handle r] at hc
    have hnodes := hc.trans hd.symm
    cases hn : ((Simulator.handle c r).2.interior r.lhs r.id (Simulator.handle c r).1).1 with
    | none =>
        rw [hn] at hnodes
        rw [Option.map_eq_none_iff.mp hnodes.symm]
        exact (hpopped _ _).stop rfl false
    | some n =>
        rw [hn] at hnodes
        obtain ⟨n', hn', hlabel⟩ := Option.map_eq_some_iff.mp hnodes.symm
        rw [hn']
        exact (hpopped _ _).goTo r hlabel.symm

/-- One round in lockstep. -/
theorem turn (h : Same c d) : (turn g t c).Same (turn g t d) := by
  have hsymbol := Token.symbol_eq h.lookahead_eq
  have hsame : t.action? d.state d.lookahead.symbol = t.action? c.state c.lookahead.symbol := by
    rw [h.state_eq, hsymbol]
  refine turn_cases (P := fun u => u.Same _) ?_ ?_ ?_ ?_ ?_
  · intro ha
    rw [turn_of_none (hsame.trans ha)]
    refine h.stop ?_ false
    show Move.syntaxError c.state ⟨c.lookahead.symbol, c.lookahead.lexeme, Span.zero⟩
      = Move.syntaxError d.state ⟨d.lookahead.symbol, d.lookahead.lexeme, Span.zero⟩
    rw [h.state_eq, hsymbol, Token.lexeme_eq h.lookahead_eq]
  · intro ha
    rw [turn_of_accept (hsame.trans ha)]
    exact h.stop rfl true
  · intro target ha
    rw [turn_of_shift (hsame.trans ha)]
    exact h.shift target
  · intro p ha hr
    rw [turn_of_unknown (hsame.trans ha) hr]
    exact h.stop rfl false
  · intro p r ha hr
    rw [turn_of_reduce (hsame.trans ha) hr]
    exact h.reduce r

end Same

/-- Plays from the same configuration up to trees and places look the same if what
    was recorded before looks the same. -/
theorem play_same (g : Grammar) (t : Table) (limit fuel : Nat) {c d : Configuration}
    {recorded recorded' : List Step} (h : Same c d)
    (hrecorded : recorded.map Step.sight = recorded'.map Step.sight) :
    (play g t limit fuel c recorded).steps.map Step.sight
        = (play g t limit fuel d recorded').steps.map Step.sight ∧
      (play g t limit fuel c recorded).accepted = (play g t limit fuel d recorded').accepted := by
  -- the fuel is the same on both sides, and the limit is named in the fault
  induction fuel generalizing c d recorded recorded' with
  | zero =>
      refine ⟨?_, rfl⟩
      show ((_ :: recorded).reverse.map Step.sight) = ((_ :: recorded').reverse.map Step.sight)
      rw [List.map_reverse, List.map_cons, List.map_reverse, List.map_cons, hrecorded,
        h.record rfl rfl]
  | succ fuel ih =>
      have hturn : (turn g t c).Same (turn g t d) := h.turn
      -- steps are recorded in reverse, in front of earlier ones
      have hgrown : ∀ {steps steps' : List Step}, steps.map Step.sight = steps'.map Step.sight →
          (steps.reverse ++ recorded).map Step.sight = (steps'.reverse ++ recorded').map Step.sight := by
        intro steps steps' hsteps
        rw [List.map_append, List.map_append, List.map_reverse, List.map_reverse, hsteps, hrecorded]
      rw [play, play]
      generalize turn g t c = first at hturn
      generalize turn g t d = second at hturn
      cases hturn with
      | goesOn hsteps hnext => exact ih hnext (hgrown hsteps)
      | ends hsteps =>
          refine ⟨?_, rfl⟩
          dsimp only
          rw [List.map_reverse, List.map_reverse, hgrown hsteps]

/-- Two configurations that agree up to positions play alike: the same steps up to
    positions, the same verdict. Every turn keeps the agreement, and the limit counts
    the same rounds on both sides. -/
theorem Same.play {c d : Configuration} (h : Same c d) (g : Grammar) (t : Table) (limit : Nat) :
    (play g t limit limit c []).steps.map Step.sight
        = (play g t limit limit d []).steps.map Step.sight ∧
      (play g t limit limit c []).accepted = (play g t limit limit d []).accepted :=
  play_same g t limit limit h rfl

end Simulator

end ShiftReduce
