import ShiftReduce.Proofs.Simulator.Rounds
import ShiftReduce.Proofs.Table.Entries
import ShiftReduce.Proofs.Tree.Derivation

/-! # The effect of a round — stacks that spell paths of the automaton

    With the tables of its grammar, the parser keeps a stack whose states are
    the states along a path of the automaton that begins in state 0, and whose
    trees are derivation trees for the symbols of the path.  Every reduction by
    the table finds the body of its rule on top of such a stack and a state
    behind it, so a round can only shift, reduce, accept or report a syntax
    error (`turn_effect`).  This holds whether or not the table has conflicts. -/

namespace ShiftReduce

namespace Simulator

/-- A stack with its top state and its trees: it spells a path of the automaton
    with derivation trees. -/
inductive Stacked (g : Grammar) : List Frame → Nat → Forest → Prop where
  | bottom : Stacked g freshStack 0 []
  | push {stack : List Frame} {k l : Nat} {f : Forest} {n : Node} (h : Stacked g stack k f)
      (hgoto : (Automaton.build g).goto? k n.label = some l) (hn : n.IsDerivation g) :
      Stacked g ({ state := l, symbol := n.label, node := some n } :: stack) l (f ++ [n])

namespace Stacked

variable {g : Grammar} {stack : List Frame} {k : Nat} {f f' : Forest}

/-- The labels lead to the top state. -/
theorem walk (h : Stacked g stack k f) : (Automaton.build g).walk? 0 f.labels = some k := by
  induction h with
  | bottom => rfl
  | push _ hgoto _ ih =>
      rw [Forest.labels_append, Forest.labels_cons, Forest.labels_nil, Automaton.walk?_snoc, ih]
      exact hgoto

/-- All trees of the stack are derivation trees. -/
theorem isDerivation (h : Stacked g stack k f) : f.IsDerivation g := by
  induction h with
  | bottom => exact fun n hn => nomatch hn
  | push _ _ hn ih => exact ih.append fun m hm => List.mem_singleton.mp hm ▸ hn

/-- The state at the top is the end of the path. -/
theorem state_eq (h : Stacked g stack k f) : (stack.head?.map Frame.state).getD 0 = (k : Int) := by
  cases h with
  | bottom => rfl
  | push _ _ _ => rfl

/-- Every frame but the bottom has a tree. -/
theorem length_eq (h : Stacked g stack k f) : stack.length = f.length + 1 := by
  induction h with
  | bottom => rfl
  | push _ _ _ ih => rw [List.length_cons, ih, List.length_append, List.length_singleton]

/-- The trees are those of the frames, bottom first. -/
theorem nodes_eq (h : Stacked g stack k f) : stack.reverse.filterMap Frame.node = f := by
  induction h with
  | bottom => rfl
  | push _ _ _ ih =>
      rw [List.reverse_cons, List.filterMap_append, ih]
      rfl

/-- The topmost trees can be taken off. -/
theorem pop (h : Stacked g stack k (f ++ f')) :
    ∃ j, Stacked g (stack.drop f'.length) j f ∧
      (stack.take f'.length).reverse.map Frame.node = f'.map some := by
  induction f' using List.reverseRecOn generalizing stack k with
  | nil =>
      rw [List.append_nil] at h
      exact ⟨k, h, rfl⟩
  | append_singleton f' n ih =>
      -- the last of the trees belongs to the frame on top
      rw [← List.append_assoc] at h
      generalize hall : f ++ f' ++ [n] = all at h
      cases h with
      | bottom => simp at hall
      | @push below i _ all m hbelow hgoto hm =>
          obtain ⟨rfl, hnm⟩ := List.append_inj' hall rfl
          obtain rfl : n = m := List.head_eq_of_cons_eq hnm
          obtain ⟨j, hj, hnodes⟩ := ih hbelow
          refine ⟨j, ?_, ?_⟩
          · rw [List.length_append, List.length_singleton, List.drop_succ_cons]
            exact hj
          · rw [List.length_append, List.length_singleton, List.take_succ_cons, List.reverse_cons,
              List.map_append, hnodes, List.map_append]
            rfl

end Stacked

/-- A configuration with its top state and its trees, whose input is closed by
    an end marker. -/
structure Legal (g : Grammar) (c : Configuration) (k : Nat) (f : Forest) : Prop where
  stacked : Stacked g c.stack k f
  epsilon : c.builder.epsilon = Symbol.epsilon
  closed : ∃ e, c.rest.getLast? = some e ∧ e.symbol = Symbol.endMarker

namespace Legal

variable {g : Grammar} {c : Configuration} {k : Nat} {f : Forest}

/-- The state of a legal configuration is the end of its path. -/
theorem state_eq (h : Legal g c k f) : c.state = (k : Int) :=
  h.stacked.state_eq

theorem forest_eq (h : Legal g c k f) : c.forest = f :=
  h.stacked.nodes_eq

/-- A legal configuration has tokens left, the lookahead first. -/
theorem rest_eq (h : Legal g c k f) : c.rest = c.lookahead :: c.rest.tail := by
  obtain ⟨e, he, -⟩ := h.closed
  rw [Configuration.lookahead]
  cases hrest : c.rest with
  | nil =>
      rw [hrest, List.getLast?_nil] at he
      exact absurd he (Option.some_ne_none e).symm
  | cons a rest => rfl

/-- Behind a terminal there is more input. -/
theorem closed_tail (hg : g.WellFormed) (h : Legal g c k f)
    (hx : c.lookahead.symbol ∈ g.terminals) :
    ∃ e, c.rest.tail.getLast? = some e ∧ e.symbol = Symbol.endMarker :=
  c.closed_tail h.closed (hg.ne_of_mem (Or.inl hx)).2.1

end Legal

/-! ## The node of a reduction -/

/-- A node that puts a rule above the trees of its body. -/
structure Joins (g : Grammar) (r : Production) (f : Forest) (n : Node) : Prop where
  label : n.label = r.lhs
  body : f.labels = r.body
  word : n.word = f.word
  interiors : n.interiors = f.interiors + 1
  shape : n.shape
    = .interior r.lhs r.id (if r.body = [] then [.leaf Symbol.epsilon] else f.shapes)
  isDerivation : n.IsDerivation g

/-- A node above an empty leaf stands for a rule with an empty body. -/
theorem joins_empty {g : Grammar} (hg : g.WellFormed) {r : Production} (hr : r ∈ g.rules)
    (hbody : r.body = []) (id k : Nat) (span span' : Span) (value : Option Bytes) :
    Joins g r [] (.interior id r.lhs r.id span [.leaf k Symbol.epsilon value span']) where
  label := rfl
  body := hbody.symm
  word := by
    rw [Node.word_interior _ _ _ _ (by simp)]
    simp
  interiors := by simp
  shape := by
    rw [if_pos hbody, Node.shape_interior]
    simp [Node.shape]
  isDerivation := .empty _ _ _ _ _ _ r (hg.rule?_id hr) hbody

/-- A node above trees stands for the rule whose body is the row of their labels. -/
theorem joins_rule {g : Grammar} (hg : g.WellFormed) {r : Production} (hr : r ∈ g.rules)
    (hbody : r.body ≠ []) {f : Forest} (hlabels : f.labels = r.body) (hf : f.IsDerivation g)
    (id : Nat) (span : Span) : Joins g r f (.interior id r.lhs r.id span f) where
  label := rfl
  body := hlabels
  word := Node.word_interior _ _ _ _ (Node.ne_nil_of_labels hlabels hbody)
  interiors := by
    rw [Node.interiors_interior, Nat.add_comm]
  shape := by
    rw [if_neg hbody, Node.shape_interior]
  isDerivation := .rule _ _ _ _ r (hg.rule?_id hr) hbody hlabels hf

/-- If all trees are there, they are found. -/
theorem mapM_map_some (f : Forest) : (f.map some).mapM (fun n => n) = some f := by
  induction f with
  | nil => rfl
  | cons n f ih => simp [ih]

/-- A reduction finds the trees of the body and puts the rule above them. -/
theorem exists_joined {g : Grammar} (hg : g.WellFormed) {c : Configuration} {k : Nat}
    {f f' : Forest} (hc : Legal g c k (f ++ f')) {r : Production} (hr : r ∈ g.rules)
    (hlabels : f'.labels = r.body) :
    ∃ n b, (handle c r).2.interior r.lhs r.id (handle c r).1 = (some n, b) ∧
      b.epsilon = Symbol.epsilon ∧ Joins g r f' n := by
  have hlength : r.length = f'.length := by
    rw [Production.length, ← hlabels, Forest.labels, List.length_map]
  -- an empty body gets a leaf of its own, any other the trees that were popped
  by_cases hbody : r.body = []
  · have hzero : r.length = 0 := by rw [Production.length, hbody]; rfl
    obtain rfl : f' = [] := List.map_eq_nil_iff.mp (hlabels.trans hbody)
    have hhandle : handle c r
        = ([some (c.builder.epsilonLeaf c.lookahead.span.start).1],
          (c.builder.epsilonLeaf c.lookahead.span.start).2) := by
      rw [handle, if_pos hzero]
    rw [hhandle]
    refine ⟨_, _, rfl, hc.epsilon, ?_⟩
    rw [Tree.Builder.epsilonLeaf, hc.epsilon]
    exact joins_empty hg hr hbody _ _ _ _ _
  · have hnonzero : r.length ≠ 0 := by
      rw [Production.length]
      exact mt List.length_eq_zero_iff.mp hbody
    obtain ⟨-, -, hnodes⟩ := hc.stacked.pop
    have hhandle : handle c r = (f'.map some, c.builder) := by
      rw [handle, if_neg hnonzero, hlength, hnodes]
    rw [hhandle]
    rw [Tree.Builder.interior, mapM_map_some]
    refine ⟨_, _, rfl, hc.epsilon, joins_rule hg hr hbody hlabels ?_ _ _⟩
    exact fun m hm => hc.stacked.isDerivation m (List.mem_append_right _ hm)

/-! ## Rounds by action -/

section Actions

variable {g : Grammar} {s : Symbol} {c : Configuration} {k l : Nat} {f f' : Forest}

/-- A shift puts a leaf on the stack. -/
theorem turn_shift (hg : g.WellFormed) (hc : Legal g c k f)
    (ha : (Table.ofGrammar g).action? c.state c.lookahead.symbol = some (.shift l))
    (hx : c.lookahead.symbol ∈ g.terminals)
    (hgoto : (Automaton.build g).goto? k c.lookahead.symbol = some l) :
    ∃ st d n, turn g (Table.ofGrammar g) c = .goesOn [st] d ∧
      st.move = .shift c.lookahead.symbol l ∧ st.rest = c.rest.tail ∧ d.rest = c.rest.tail ∧
      Legal g d l (f ++ [n]) ∧ n.word = [c.lookahead.symbol] ∧ n.interiors = 0 ∧ n.shape = .leaf c.lookahead.symbol ∧
      n.label = c.lookahead.symbol := by
  have hturn : turn g (Table.ofGrammar g) c = shift c l := turn_of_shift ha
  let leaf : Node := (c.builder.leaf c.lookahead.symbol
    (if c.lookahead.isEnd then [] else c.lookahead.lexeme) c.lookahead.span).1
  refine ⟨_, _, leaf, hturn.trans rfl, rfl, rfl, rfl, ⟨?_, hc.epsilon, hc.closed_tail hg hx⟩,
    ?_, ?_, ?_, rfl⟩
  · exact hc.stacked.push (n := leaf) hgoto (.leaf _ _ _ _ hx)
  · exact Node.word_leaf _ _ _ (hg.ne_of_mem (Or.inl hx)).1
  · exact Node.interiors_leaf _ _ _ _
  · simp [leaf, Tree.Builder.leaf, Node.shape]

/-- A reduction replaces the trees of the body by one with the rule above
    them. -/
theorem turn_reduce (h : Table.Tabular g s) (hc : Legal g c k (f ++ f')) {r : Production}
    (hr : r ∈ g.rules) (hlabels : f'.labels = r.body)
    (ha : (Table.ofGrammar g).action? c.state c.lookahead.symbol = some (.reduce r.id)) {j : Nat}
    (hwalk : (Automaton.build g).walk? 0 f.labels = some j)
    (hgoto : (Automaton.build g).goto? j r.lhs = some l) :
    ∃ st st' d n, turn g (Table.ofGrammar g) c = .goesOn [st, st'] d ∧ st.move = .reduce r ∧
      st'.move = .goTo r j l ∧ st.rest = c.rest ∧ st'.rest = c.rest ∧ d.rest = c.rest ∧
      Legal g d l (f ++ [n]) ∧ Joins g r f' n := by
  have hlength : r.length = f'.length := by
    rw [Production.length, ← hlabels, Forest.labels, List.length_map]
  -- the bottom stays: there is a frame for each tree, and one below them
  have hdeep : ¬ c.stack.length ≤ r.length := by
    rw [hc.stacked.length_eq, hlength, List.length_append]
    omega
  obtain ⟨n, b, hnode, hb, hjoins⟩ := exists_joined h.toWellFormed hc hr hlabels
  obtain ⟨j', hpopped, -⟩ := hc.stacked.pop
  obtain rfl : j = j' := Option.some.inj (hwalk.symm.trans hpopped.walk)
  rw [← hlength] at hpopped
  have hturn : turn g (Table.ofGrammar g) c = goTo (Table.ofGrammar g)
      { c with stack := c.stack.drop r.length, builder := b } r n := by
    rw [turn_of_reduce ha (h.rule?_id hr), reduce, if_neg hdeep]
    dsimp only
    rw [hnode]
  have hstate : Configuration.state
      (Configuration.tick { c with stack := c.stack.drop r.length, builder := b }) = (j : Int) :=
    hpopped.state_eq
  -- the state that is uncovered has an edge for the left side, so the cell is filled
  have hentry := (h.goto?_iff (k := j) (h.lhs_mem r hr)).mpr ⟨l, rfl, hgoto⟩
  rw [goTo] at hturn
  dsimp only at hturn
  rw [hstate, hentry] at hturn
  refine ⟨_, _, _, n, hturn, rfl, rfl, rfl, rfl, rfl, ⟨?_, hb, hc.closed⟩, hjoins⟩
  rw [← hjoins.label] at hgoto ⊢
  exact hpopped.push hgoto hjoins.isDerivation

end Actions

/-- What a round can come to: nothing is shifted or reduced that does not fit
    the stack. -/
inductive Effect (g : Grammar) (s : Symbol) (c : Configuration) (f : Forest) : Turn → Prop where
  | error (h : (Table.ofGrammar g).action? c.state c.lookahead.symbol = none) :
      Effect g s c f (c.stop (.syntaxError c.state c.lookahead) false)
  | accept (hlabels : f.labels = [s]) (hend : c.lookahead.symbol = Symbol.endMarker) :
      Effect g s c f (c.stop .accept true)
  | shift {st : Step} {d : Configuration} {l : Nat} {n : Node}
      (hmove : st.move = .shift c.lookahead.symbol l) (hst : st.rest = d.rest)
      (hrest : c.rest = c.lookahead :: d.rest) (hd : Legal g d l (f ++ [n])) (hword : n.word = [c.lookahead.symbol])
      (hinteriors : n.interiors = 0) : Effect g s c f (.goesOn [st] d)
  | reduce {f₁ f₂ : Forest} {st st' : Step} {d : Configuration} {j l : Nat} {r : Production}
      {n : Node} (hf : f = f₁ ++ f₂) (hmove : st.move = .reduce r) (hmove' : st'.move = .goTo r j l)
      (hst : st.rest = c.rest) (hst' : st'.rest = c.rest) (hrest : d.rest = c.rest)
      (hd : Legal g d l (f₁ ++ [n])) (hn : Joins g r f₂ n) :
      Effect g s c f (.goesOn [st, st'] d)

/-- A round with the tables of the grammar. -/
theorem turn_effect {g : Grammar} {s : Symbol} (h : Table.Tabular g s) {c : Configuration} {k : Nat}
    {f : Forest} (hc : Legal g c k f) : Effect g s c f (turn g (Table.ofGrammar g) c) := by
  cases ha : (Table.ofGrammar g).action? c.state c.lookahead.symbol with
  | none =>
      rw [turn_of_none ha]
      exact .error ha
  | some a =>
      obtain ⟨k', state, hk, hst, hcand⟩ := h.candidate_of_action? ha
      obtain rfl : k = k' := by
        rw [hc.state_eq] at hk
        omega
      have hitems := h.mem_items_iff hc.stacked.walk hst
      generalize hx : c.lookahead.symbol = x at hcand
      cases hcand with
      | shift hterm hmem =>
          subst hx
          obtain ⟨st, d, n, hturn, hmove, hstep, hrest, hd, hword, hint, -⟩ :=
            turn_shift h.toWellFormed hc ha hterm (h.goto?_eq_some_iff.mpr ⟨state, hst, hmem⟩)
          rw [hturn]
          exact .shift hmove (hstep.trans hrest.symm) (by rw [hrest]; exact hc.rest_eq) hd hword hint
      | @accept i r hi hr hnext hlhs =>
          -- the completed item of rule 0 is valid for the path, so the path is short
          have hroot : r = { id := 0, lhs := g.start, body := [s] } := by
            have hid := h.rule?_id (Grammar.mem_of_rule? hr)
            rw [h.root_only r (Grammar.mem_of_rule? hr) hlhs, h.rule?_zero] at hid
            exact (Option.some.inj hid).symm
          obtain ⟨v, hv, hvalid⟩ := ((hitems i).mp hi).complete h.toRooted hr hnext
          rw [hroot] at hv hvalid
          rw [hvalid.of_root h.toRooted] at hv
          rw [turn_of_accept ha]
          exact .accept hv hx
      | @reduce i r _ hi hr hnext hlhs hfollow hcolumn =>
          -- the item is completed, so the body is on top and the rule was begun below it
          have hmem := Grammar.mem_of_rule? hr
          obtain ⟨v, hv, hvalid⟩ := ((hitems i).mp hi).complete h.toRooted hr hnext
          obtain ⟨j, l, hwalk, hgoto⟩ := h.exists_goto_lhs h.toRooted.planted hmem hlhs hvalid
          obtain ⟨f₁, f₂, rfl, rfl, hf₂⟩ := List.map_eq_append_iff.mp hv
          obtain ⟨st, st', d, n, hturn, hmove, hmove', hstep, hstep', hrest, hd, hjoins⟩ :=
            turn_reduce h hc hmem hf₂ ha hwalk hgoto
          rw [hturn]
          exact .reduce rfl hmove hmove' hstep hstep' hrest hd hjoins

end Simulator

end ShiftReduce
