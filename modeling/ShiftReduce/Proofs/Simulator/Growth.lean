import ShiftReduce.Proofs.Simulator.Effect
import ShiftReduce.Proofs.Tree.Positions

/-! # Growth — the forest of a run is exact at every step

    Above the bottom of the stack every frame has a tree, and the trees, bottom
    first, are a forest that has grown from the consumed tokens up to the next
    one (`Bears`).  A shift adds a leaf for the next token; a reduction of an empty
    body first adds a leaf where the next token begins; and every reduction joins
    the last trees.  Of the table only this is needed, that it shifts nothing but
    terminals: so the stray tokens and the end of the input are never consumed,
    and there always is a next token.  A reduction that finds no goto leaves its
    node pending, which is the last tree of the step all the same. -/

namespace ShiftReduce

/-- Tokens that lie in the input one behind the other, and read like their symbols
    if these are terminals. -/
structure Lexer.Laid (terminals : List Symbol) (input : Bytes) (tokens : List Token) : Prop where
  ordered : tokens.Pairwise fun t u => t.span.stop ≤ u.span.start
  forward : ∀ t ∈ tokens, t.span.start ≤ t.span.stop
  nonempty : ∀ t ∈ tokens, t.symbol ∈ terminals → t.span.start < t.span.stop
  inside : ∀ t ∈ tokens, t.span.stop ≤ input.length
  lexeme : ∀ t ∈ tokens, t.symbol ∈ terminals →
    t.lexeme = (input.drop t.span.start).take (t.span.stop - t.span.start)
  text : ∀ t ∈ tokens, t.symbol ∈ terminals → t.lexeme = Bytes.ofText t.symbol

/-- A terminal has a lexeme that is not empty. -/
theorem Lexer.Laid.lexeme_ne_nil {terminals : List Symbol} {input : Bytes} {tokens : List Token}
    (h : Laid terminals input tokens) {a : Token} (ha : a ∈ tokens)
    (hterminal : a.symbol ∈ terminals) : a.lexeme ≠ [] := by
  have hnonempty := h.nonempty a ha hterminal
  have hinside := h.inside a ha
  refine List.ne_nil_of_length_pos ?_
  rw [h.lexeme a ha hterminal, List.length_take, List.length_drop]
  omega

namespace Simulator

/-- The trees at a step are exact for the tokens that are not left. -/
def Step.Exact (input : Bytes) (tokens : List Token) (st : Step) : Prop :=
  ∃ consumed, tokens = consumed ++ st.rest ∧ st.forest.Exact input consumed

/-! ## Trees on a stack -/

/-- A stack with its trees, bottom first; the bottom has none. -/
def Carries (stack : List Frame) (f : Forest) : Prop :=
  stack.reverse.map Frame.node = none :: f.map some

namespace Carries

variable {stack : List Frame} {f : Forest}

/-- The trees of a stack are those of its frames, bottom first. -/
theorem forest_eq (h : Carries stack f) : stack.reverse.filterMap Frame.node = f := by
  have hnodes : stack.reverse.filterMap Frame.node =
      (stack.reverse.map Frame.node).filterMap id := by
    rw [List.filterMap_map]
    rfl
  rw [hnodes, h, List.filterMap_cons_none rfl, List.filterMap_map]
  exact List.filterMap_some

/-- Every frame but the bottom has a tree. -/
theorem length_eq (h : Carries stack f) : stack.length = f.length + 1 := by
  have hlength := congrArg List.length h
  simpa using hlength

/-- A frame with a tree puts that behind the others. -/
theorem push (h : Carries stack f) (state : Int) (symbol : Symbol) (n : Node) :
    Carries ({ state, symbol, node := some n } :: stack) (f ++ [n]) := by
  rw [Carries, List.reverse_cons, List.map_append, h, List.map_append]
  rfl

/-- The topmost trees can be taken off, if the bottom stays. -/
theorem pop (h : Carries stack f) {k : Nat} (hk : k ≤ f.length) :
    ∃ front back, f = front ++ back ∧ back.length = k ∧ Carries (stack.drop k) front ∧
      (stack.take k).reverse.map Frame.node = back.map some := by
  refine ⟨f.take (f.length - k), f.drop (f.length - k), (List.take_append_drop _ f).symm, ?_, ?_, ?_⟩
  · rw [List.length_drop]
    omega
  · have hcount : stack.length - k = f.length - k + 1 := by
      rw [h.length_eq]
      omega
    rw [Carries, List.reverse_drop, List.map_take, h, hcount, List.take_succ_cons, List.map_take]
  · have hcount : stack.length - k = f.length - k + 1 := by
      rw [h.length_eq]
      omega
    rw [List.reverse_take, List.map_drop, h, hcount, List.drop_succ_cons, List.map_drop]

end Carries

/-- A configuration whose trees have grown from the consumed tokens up to the next
    one. -/
structure Bears (input : Bytes) (tokens consumed : List Token) (f : Forest) (c : Configuration) :
    Prop where
  carries : Carries c.stack f
  epsilon : c.builder.epsilon = Symbol.epsilon
  closed : ∃ e, c.rest.getLast? = some e ∧ e.symbol = Symbol.endMarker
  split : tokens = consumed ++ c.rest
  grows : f.Grows input consumed c.builder.count c.lookahead.span.start

section Rounds

variable {terminals : List Symbol} {input : Bytes} {tokens consumed : List Token} {f : Forest}
  {g : Grammar} {t : Table} {c d : Configuration} {n : Nat} {steps : List Step}

/-- A step shows the trees on its stack and the pending one. -/
theorem Carries.exact (h : Carries c.stack f) (hsplit : tokens = consumed ++ c.rest)
    {pending : Option Node} (hexact : (f ++ pending.toList).Exact input consumed) (m : Move) :
    (c.record m pending).Exact input tokens := by
  refine ⟨consumed, hsplit, ?_⟩
  have hforest : (c.record m pending).forest = f ++ pending.toList :=
    congrArg (· ++ pending.toList) h.forest_eq
  rw [hforest]
  exact hexact

/-- There is a next token. -/
theorem Bears.rest_eq (h : Bears input tokens consumed f c) : c.rest = c.lookahead :: c.rest.tail := by
  obtain ⟨e, he, -⟩ := h.closed
  rw [Configuration.lookahead]
  cases hrest : c.rest with
  | nil =>
      rw [hrest] at he
      cases he
  | cons a rest => rfl

/-- The lookahead is one of the tokens. -/
theorem Bears.lookahead_mem (h : Bears input tokens consumed f c) : c.lookahead ∈ tokens := by
  rw [h.split, h.rest_eq]
  exact List.mem_append_right _ List.mem_cons_self

/-- A step that is recorded now shows exact trees. -/
theorem Bears.exact (h : Bears input tokens consumed f c) (m : Move) :
    (c.record m none).Exact input tokens := by
  refine h.carries.exact h.split ?_ m
  rw [Option.toList_none, List.append_nil]
  exact h.grows.toExact

/-- What a round records is exact, and what it goes on with has grown. -/
def Turn.Grows (input : Bytes) (tokens : List Token) : Turn → Prop
  | .goesOn steps next => (∀ st ∈ steps, st.Exact input tokens) ∧
      ∃ consumed f, Bears input tokens consumed f next
  | .ends steps _ _ => ∀ st ∈ steps, st.Exact input tokens

/-- So does the step that a round stops with. -/
theorem Bears.stop (h : Bears input tokens consumed f c) (m : Move) (accepted : Bool) :
    (c.stop m accepted).Grows input tokens := by
  intro st hst
  rw [List.mem_singleton.mp hst]
  exact h.exact m

theorem Bears.tick (h : Bears input tokens consumed f c) : Bears input tokens consumed f c.tick :=
  ⟨h.carries, h.epsilon, h.closed, h.split, h.grows⟩

/-- The leaf of a token that is not the end marker has the lexeme for its value. -/
theorem leaf_of_lexeme (b : Tree.Builder) {a : Token} (hend : a.symbol ≠ Symbol.endMarker)
    (hlexeme : a.lexeme ≠ []) :
    b.leaf a.symbol (if a.isEnd then [] else a.lexeme) a.span =
      (.leaf b.count a.symbol (some a.lexeme) a.span, { b with count := b.count + 1 }) := by
  have hfull : ¬ a.lexeme.isEmpty = true := by
    rw [List.isEmpty_iff]
    exact hlexeme
  rw [if_neg (by simpa [Token.isEnd] using hend), Tree.Builder.leaf, if_neg hfull]

/-- Behind a token that is not the end marker there is another one. -/
theorem Bears.stop_le_next (h : Bears input tokens consumed f c)
    (hlaid : Lexer.Laid terminals input tokens) (hne : c.lookahead.symbol ≠ Symbol.endMarker) :
    c.lookahead.span.stop ≤ (c.rest.tail.headD c.last).span.start := by
  obtain ⟨e, hlast, -⟩ := c.closed_tail h.closed hne
  obtain ⟨a, rest, htail⟩ : ∃ a rest, c.rest.tail = a :: rest := by
    refine List.exists_cons_of_ne_nil ?_
    intro hnil
    rw [hnil] at hlast
    cases hlast
  have hordered := hlaid.ordered
  rw [h.split, h.rest_eq, htail] at hordered
  rw [htail]
  exact (List.pairwise_cons.mp (List.pairwise_append.mp hordered).2.1).1 a List.mem_cons_self

/-- The forest grows by the leaf of a terminal. -/
theorem Bears.grows_leaf (h : Bears input tokens consumed f c)
    (hlaid : Lexer.Laid terminals input tokens) (hε : Symbol.epsilon ∉ terminals)
    (hterminal : c.lookahead.symbol ∈ terminals) :
    Forest.Grows input (consumed ++ [c.lookahead]) (c.builder.count + 1) c.lookahead.span.stop
      (f ++ [.leaf c.builder.count c.lookahead.symbol (some c.lookahead.lexeme)
        c.lookahead.span]) := by
  have hmem := h.lookahead_mem
  have hnotEpsilon : c.lookahead.symbol ≠ Symbol.epsilon := by
    intro heq
    exact hε (heq ▸ hterminal)
  refine h.grows.leaf (Nat.le_refl _) (hlaid.forward _ hmem) (Or.inr ⟨hnotEpsilon, ?_, ?_, ?_, ?_⟩) ?_
  · exact hlaid.nonempty _ hmem hterminal
  · exact hlaid.inside _ hmem
  · exact congrArg some (hlaid.lexeme _ hmem hterminal)
  · exact congrArg some (hlaid.text _ hmem hterminal)
  · rw [if_neg hnotEpsilon]
    rfl

/-- A shift adds a leaf for the next token. -/
theorem Bears.shift (hlaid : Lexer.Laid terminals input tokens) (hε : Symbol.epsilon ∉ terminals)
    (hend : Symbol.endMarker ∉ terminals) (h : Bears input tokens consumed f c)
    (hterminal : c.lookahead.symbol ∈ terminals) (target : Int) :
    (shift c target).Grows input tokens := by
  have hnotEnd : c.lookahead.symbol ≠ Symbol.endMarker := by
    intro heq
    exact hend (heq ▸ hterminal)
  -- a declared terminal has text, so the leaf takes the lexeme as its value
  have hlexeme := hlaid.lexeme_ne_nil h.lookahead_mem hterminal
  rw [Simulator.shift, leaf_of_lexeme c.builder hnotEnd hlexeme]
  have hnext : Bears input tokens (consumed ++ [c.lookahead])
      (f ++ [.leaf c.builder.count c.lookahead.symbol (some c.lookahead.lexeme) c.lookahead.span])
      { c with
        stack := { state := target, symbol := c.lookahead.symbol
                   node := some (.leaf c.builder.count c.lookahead.symbol
                    (some c.lookahead.lexeme) c.lookahead.span) } :: c.stack
        rest := c.rest.tail
        builder := { c.builder with count := c.builder.count + 1 } } := by
    refine ⟨h.carries.push _ _ _, h.epsilon, c.closed_tail h.closed hnotEnd, ?_,
      (h.grows_leaf hlaid hε hterminal).mono (h.stop_le_next hlaid hnotEnd)⟩
    rw [List.append_assoc, List.singleton_append, ← h.rest_eq]
    exact h.split
  refine ⟨?_, _, _, hnext.tick⟩
  intro st hst
  rw [List.mem_singleton.mp hst]
  exact hnext.exact _

/-- What a reduction takes from a stack that is deep enough: the last trees, or a
    new leaf where the next token begins. -/
theorem Bears.handle (h : Bears input tokens consumed f c) {r : Production}
    (hdeep : ¬ c.stack.length ≤ r.length) :
    ∃ front back b, Simulator.handle c r = (back.map some, b) ∧ b.epsilon = Symbol.epsilon ∧
      back ≠ [] ∧ Carries (c.stack.drop r.length) front ∧
      (front ++ back).Grows input consumed b.count c.lookahead.span.start := by
  have hlength := h.carries.length_eq
  obtain ⟨front, back, rfl, hback, hpopped, hnodes⟩ :=
    h.carries.pop (k := r.length) (by omega)
  rw [Simulator.handle]
  -- an empty handle gets a leaf of width zero in front of the lookahead
  by_cases hzero : r.length = 0
  · obtain rfl : back = [] := List.length_eq_zero_iff.mp (hback.trans hzero)
    have hgrows := h.grows
    rw [List.append_nil] at hgrows
    have hleaf : Forest.Grows input (consumed ++ []) (c.builder.count + 1)
        (Span.point c.lookahead.span.start).stop
        (front ++ [.leaf c.builder.count Symbol.epsilon none
          (Span.point c.lookahead.span.start)]) := by
      refine hgrows.leaf ?_ ?_ (Or.inl ⟨rfl, rfl⟩) rfl
      · exact Nat.le_refl _
      · exact Nat.le_refl _
    rw [List.append_nil] at hleaf
    refine ⟨front, _, { c.builder with count := c.builder.count + 1 }, ?_, h.epsilon,
      List.cons_ne_nil _ _, hpopped, hleaf⟩
    rw [if_pos hzero, ← h.epsilon]
    rfl
  · refine ⟨front, back, c.builder, ?_, h.epsilon, ?_, hpopped, h.grows⟩
    · rw [if_neg hzero, hnodes]
    · rintro rfl
      exact hzero hback.symm

/-- A node joined from trees that have been taken off goes on the stack, or stays
    pending. -/
theorem goTo_grows (hcarries : Carries c.stack f) (hepsilon : c.builder.epsilon = Symbol.epsilon)
    (hclosed : ∃ e, c.rest.getLast? = some e ∧ e.symbol = Symbol.endMarker)
    (hsplit : tokens = consumed ++ c.rest) {node : Node}
    (hgrows : (f ++ [node]).Grows input consumed c.builder.count c.lookahead.span.start)
    (r : Production) : (goTo t c r node).Grows input tokens := by
  have hreduced : (c.record (.reduce r) (some node)).Exact input tokens :=
    hcarries.exact hsplit hgrows.toExact (.reduce r)
  rw [goTo]
  dsimp only
  cases t.goto? c.tick.state r.lhs with
  | none =>
      have hpending : (c.tick.record (.gotoError r c.tick.state) (some node)).Exact input tokens :=
        Carries.exact hcarries hsplit hgrows.toExact (.gotoError r c.tick.state)
      exact List.forall_mem_cons.mpr ⟨hreduced, List.forall_mem_singleton.mpr hpending⟩
  | some target =>
      have hnext : Bears input tokens consumed (f ++ [node])
          { c.tick with
            stack := { state := target, symbol := r.lhs, node := some node } :: c.tick.stack } :=
        ⟨hcarries.push target r.lhs node, hepsilon, hclosed, hsplit, hgrows⟩
      refine ⟨List.forall_mem_cons.mpr ⟨hreduced, ?_⟩, consumed, f ++ [node], hnext.tick⟩
      exact List.forall_mem_singleton.mpr (hnext.exact _)

/-- A reduction joins what it takes. -/
theorem Bears.reduce (h : Bears input tokens consumed f c) (r : Production) :
    (Simulator.reduce t c r).Grows input tokens := by
  rw [Simulator.reduce]
  by_cases hdeep : c.stack.length ≤ r.length
  · rw [if_pos hdeep]
    exact h.stop _ false
  · obtain ⟨front, back, b, hhandle, hepsilon, hne, hcarries, hgrows⟩ := h.handle hdeep
    have hinterior : b.interior r.lhs r.id (back.map some) =
        (some (.interior b.count r.lhs r.id (Tree.Builder.spanOf back) back),
          { b with count := b.count + 1 }) := by
      rw [Tree.Builder.interior, mapM_map_some]
      rfl
    rw [if_neg hdeep, hhandle]
    dsimp only
    rw [hinterior]
    exact goTo_grows
      (c := { c with stack := c.stack.drop r.length, builder := { b with count := b.count + 1 } })
      hcarries hepsilon h.closed h.split (hgrows.join hne r.lhs r.id) r

/-- What a round preserves, of a table that shifts nothing but terminals. -/
theorem Bears.turn (hlaid : Lexer.Laid terminals input tokens) (hε : Symbol.epsilon ∉ terminals)
    (hend : Symbol.endMarker ∉ terminals)
    (htable : ∀ k x l, t.action? k x = some (.shift l) → x ∈ terminals)
    (h : Bears input tokens consumed f c) : (turn g t c).Grows input tokens := by
  refine turn_cases (P := fun u => u.Grows input tokens) ?_ ?_ ?_ ?_ ?_
  · intro _
    exact h.stop _ false
  · intro _
    exact h.stop _ true
  · intro target haction
    exact h.shift hlaid hε hend (htable _ _ _ haction) target
  · intro p _ _
    exact h.stop _ false
  · intro p r _ _
    exact h.reduce r

/-- The steps of a counted run are exact, and its forest has grown. -/
theorem Runs.grows (hlaid : Lexer.Laid terminals input tokens) (hε : Symbol.epsilon ∉ terminals)
    (hend : Symbol.endMarker ∉ terminals)
    (htable : ∀ k x l, t.action? k x = some (.shift l) → x ∈ terminals)
    (hruns : Runs g t n c steps d) :
    ∀ {consumed f}, Bears input tokens consumed f c →
      (∀ st ∈ steps, st.Exact input tokens) ∧ ∃ consumed f, Bears input tokens consumed f d := by
  induction hruns with
  | refl c => exact fun h => ⟨List.forall_mem_nil _, _, _, h⟩
  | step hturn _ ih =>
      intro consumed f h
      have hround := h.turn (g := g) hlaid hε hend htable
      rw [hturn] at hround
      obtain ⟨hsteps, _, _, hnext⟩ := hround
      obtain ⟨hlater, hlast⟩ := ih hnext
      exact ⟨List.forall_mem_append.mpr ⟨hsteps, hlater⟩, hlast⟩

/-- The steps of a play are exact, whether it ends or comes to the limit. -/
theorem play_exact (hlaid : Lexer.Laid terminals input tokens) (hε : Symbol.epsilon ∉ terminals)
    (hend : Symbol.endMarker ∉ terminals)
    (htable : ∀ k x l, t.action? k x = some (.shift l) → x ∈ terminals)
    (h : Bears input tokens consumed f c) (limit fuel : Nat) :
    ∀ st ∈ (play g t limit fuel c []).steps, st.Exact input tokens := by
  rcases play_cases (g := g) (t := t) limit fuel c [] with
    ⟨steps, d, hruns, hplay⟩ | ⟨m, steps, d, last, accepted, final, -, hruns, hends, hplay⟩
  · obtain ⟨hsteps, _, _, hd⟩ := hruns.grows hlaid hε hend htable h
    rw [hplay]
    exact List.forall_mem_append.mpr ⟨hsteps, List.forall_mem_singleton.mpr (hd.exact _)⟩
  · obtain ⟨hsteps, _, _, hd⟩ := hruns.grows hlaid hε hend htable h
    have hround := hd.turn (g := g) hlaid hε hend htable
    rw [hends] at hround
    rw [hplay]
    exact List.forall_mem_append.mpr ⟨hsteps, hround⟩

end Rounds

end Simulator

end ShiftReduce
