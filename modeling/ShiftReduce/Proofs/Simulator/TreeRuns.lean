import ShiftReduce.Proofs.Analysis.Follow
import ShiftReduce.Proofs.Simulator.Invariant

/-! # Trees direct runs — a table without conflicts retraces every derivation tree

    If no conflicts were reported, then on the word of a derivation tree the
    parser builds exactly this tree.  The induction is on trees: a leaf is a
    shift, and an interior node is a reduction behind the runs of its children.
    The reduction is in the table because the item of its rule has moved over
    the children, and because what comes next can follow the left side.  The
    context of a tree is kept as a form `f.labels ++ F.labels ++ z` that the
    start symbol derives, with the trees on the stack before it and the rest of
    the input behind it. -/

namespace ShiftReduce

namespace Node

/-- The shape of a tree has its label. -/
def Shape.label : Shape → Symbol
  | .leaf label => label
  | .interior label _ _ => label

theorem label_shape (n : Node) : n.shape.label = n.label := by
  cases n with
  | leaf id label value span => rw [shape]; rfl
  | interior id label rule span children => rw [shape]; rfl

end Node

/-- Forests of one shape have the same labels. -/
theorem Forest.labels_of_shapes {f f' : Forest} (h : f.shapes = f'.shapes) :
    f.labels = f'.labels := by
  have hlabels : ∀ f : Forest, f.labels = f.shapes.map Node.Shape.label := by
    intro f
    rw [Forest.shapes, List.map_map]
    exact List.map_congr_left fun n _ => (Node.label_shape n).symm
  rw [hlabels f, hlabels f', h]

namespace Simulator

variable {g : Grammar} {s : Symbol}

/-- In every context, the parser builds trees of the same shapes from their
    word. -/
def Retraces (g : Grammar) (s : Symbol) (F : Forest) : Prop :=
  ∀ (c : Configuration) (k l : Nat) (f : Forest) (z : List Symbol) (front behind : List Token),
    Legal g c k f → (Automaton.build g).walk? k F.labels = some l →
    g.Derives [s] (f.labels ++ F.labels ++ z) → g.IsWord z →
    c.rest = front ++ behind → front.map Token.symbol = F.word →
    behind.map Token.symbol = z ++ [Symbol.endMarker] →
    ∃ steps d F', Runs g (Table.ofGrammar g) (F.word.length + F.interiors) c steps d ∧
      steps.length = F.word.length + 2 * F.interiors ∧ Legal g d l (f ++ F') ∧
      F'.shapes = F.shapes ∧ d.rest = behind

/-- Trees side by side are retraced if each of them is. -/
theorem retraces_forest (hg : g.WellFormed) : ∀ {F : Forest}, F.IsDerivation g →
    (∀ n ∈ F, Retraces g s [n]) → Retraces g s F := by
  intro F
  induction F with
  | nil =>
      intro _ _ c k l f z front behind hc hwalk _ _ hrest hfront _
      obtain rfl : k = l := Option.some.inj hwalk
      obtain rfl : front = [] := List.map_eq_nil_iff.mp hfront
      exact ⟨[], c, [], .refl c, rfl, by rw [List.append_nil]; exact hc, rfl, hrest⟩
  | cons n F ih =>
      intro hF hall c k l f z front behind hc hwalk hder hz hrest hfront hbehind
      have hF' : Forest.IsDerivation g F := fun m hm => hF m (List.mem_cons_of_mem _ hm)
      obtain ⟨hword, hwordw⟩ := hF'.derives hg
      rw [Forest.labels_cons, Automaton.walk?, Option.bind_eq_some_iff] at hwalk
      obtain ⟨j, hj, hwalk⟩ := hwalk
      rw [Forest.word_cons] at hfront
      obtain ⟨front₁, front₂, rfl, hfront₁, hfront₂⟩ := List.map_eq_append_iff.mp hfront
      -- behind the first tree stands the word of the others
      have hder₁ : g.Derives [s] (f.labels ++ Forest.labels [n] ++ (Forest.word F ++ z)) := by
        refine hder.trans ?_
        have hinside := hword.inside (f.labels ++ [n.label]) z
        simpa using hinside
      obtain ⟨steps₁, d₁, F₁, hruns₁, hlen₁, hd₁, hshapes₁, hrest₁⟩ :=
        hall n List.mem_cons_self c k j f (Forest.word F ++ z) front₁ (front₂ ++ behind) hc
          (by rw [Forest.labels_cons, Forest.labels_nil, Automaton.walk?, hj]; rfl) hder₁
          (hwordw.append hz) (by rw [hrest, List.append_assoc]) (by simpa using hfront₁)
          (by rw [List.map_append, hfront₂, hbehind, List.append_assoc])
      have hlabels₁ := Forest.labels_of_shapes hshapes₁
      have hder₂ : g.Derives [s] ((f ++ F₁).labels ++ Forest.labels F ++ z) := by
        rw [Forest.labels_append, hlabels₁]
        simpa using hder
      obtain ⟨steps₂, d₂, F₂, hruns₂, hlen₂, hd₂, hshapes₂, hrest₂⟩ :=
        ih hF' (fun m hm => hall m (List.mem_cons_of_mem _ hm)) d₁ j l (f ++ F₁) z front₂ behind hd₁
          hwalk hder₂ hz hrest₁ hfront₂ hbehind
      refine ⟨steps₁ ++ steps₂, d₂, F₁ ++ F₂, ?_, ?_, ?_, ?_, hrest₂⟩
      · have hruns := hruns₁.trans hruns₂
        have hcount : (Forest.word [n]).length + Forest.interiors [n]
              + ((Forest.word F).length + Forest.interiors F)
            = (Forest.word (n :: F)).length + Forest.interiors (n :: F) := by
          simp
          omega
        rw [hcount] at hruns
        exact hruns
      · rw [List.length_append, hlen₁, hlen₂]
        simp
        omega
      · rw [← List.append_assoc]
        exact hd₂
      · rw [Forest.shapes_append, hshapes₁, hshapes₂]
        rfl

/-- What comes behind a form that the start symbol derives has a column. -/
theorem headD_mem_columns {z : List Symbol} (hz : g.IsWord z) :
    z.headD Symbol.endMarker ∈ g.terminals ++ [Symbol.endMarker] := by
  cases z with
  | nil => simp
  | cons x z => exact List.mem_append_left _ (hz x List.mem_cons_self)

/-- The lookahead is the first symbol of what is still to be read, and the end marker
    when nothing is. -/
theorem lookahead_eq {c : Configuration} {z : List Symbol} {behind : List Token}
    (hrest : c.rest = behind) (hbehind : behind.map Token.symbol = z ++ [Symbol.endMarker]) :
    c.lookahead.symbol = z.headD Symbol.endMarker := by
  rw [Configuration.lookahead, hrest]
  cases behind with
  | nil => simp at hbehind
  | cons a behind =>
      cases z with
      | nil => exact List.head_eq_of_cons_eq hbehind
      | cons x z => exact List.head_eq_of_cons_eq hbehind

/-- Where a rule was begun and its body is on the stack, the table has its
    reduction before everything that the start symbol derives behind it. -/
theorem action_of_body (h : Table.Tabular g s) (hfree : (Table.ofGrammar g).conflicts = [])
    {c : Configuration} {j k l : Nat} {f F : Forest} {z : List Symbol} {r : Production}
    (hr : r ∈ g.rules) (hc : Legal g c k (f ++ F)) (hlabels : F.labels = r.body)
    (hwalk : (Automaton.build g).walk? 0 f.labels = some j)
    (hgoto : (Automaton.build g).goto? j r.lhs = some l)
    (hder : g.Derives [s] (f.labels ++ r.lhs :: z)) (hz : g.IsWord z)
    (hahead : c.lookahead.symbol = z.headD Symbol.endMarker) :
    (Table.ofGrammar g).action? c.state c.lookahead.symbol = some (.reduce r.id) := by
  obtain ⟨hlhs, hdone⟩ := h.valid_of_goto_lhs hr hwalk hgoto
  rw [← hlabels, ← Forest.labels_append] at hdone
  obtain ⟨st, hst, -⟩ := h.exists_valid hc.stacked.walk
  have hmem := (h.mem_items_iff hc.stacked.walk hst _).mpr hdone
  have hroot : g.Derives [g.start] [s] :=
    Grammar.Derives.of_rule (r := { id := 0, lhs := g.start, body := [s] })
      (List.mem_of_getElem? h.root)
  have hfollow := Analysis.mem_follow_of_derives h.toWellFormed (h.lhs_mem r hr) hz
    (hroot.trans hder)
  rw [hc.state_eq, hahead]
  refine h.action?_of_candidate hfree hst
    (.reduce hmem (h.rule?_id hr) ?_ hlhs hfollow (headD_mem_columns hz))
  rw [Item.next?_of_rule (h.rule?_id hr), hlabels]
  exact List.getElem?_eq_none (Nat.le_refl _)

/-- A run that has built the trees of a body goes on with the reduction. -/
theorem retraces_rule (h : Table.Tabular g s) (hfree : (Table.ofGrammar g).conflicts = [])
    {r : Production} (hr : r ∈ g.rules) {F : Forest} (hlabels : F.labels = r.body)
    (hF : Retraces g s F) {n : Node} (hn : Joins g r F n) : Retraces g s [n] := by
  intro c k l f z front behind hc hwalk hder hz hrest hfront hbehind
  have hlabel : Forest.labels [n] = [r.lhs] := by
    rw [Forest.labels_cons, hn.label, Forest.labels_nil]
  have hword : Forest.word [n] = F.word := by simp [hn.word]
  have hinteriors : Forest.interiors [n] = F.interiors + 1 := by simp [hn.interiors]
  rw [hlabel] at hder hwalk
  have hgoto : (Automaton.build g).goto? k r.lhs = some l := by
    rw [Automaton.walk?, Option.bind_eq_some_iff] at hwalk
    obtain ⟨j, hj, hjl⟩ := hwalk
    rw [hj]
    exact hjl
  rw [List.append_assoc, List.singleton_append] at hder
  -- the item of the rule moves over the body, so the body leads to a state
  obtain ⟨m, hm⟩ : ∃ m, (Automaton.build g).walk? k F.labels = some m := by
    obtain ⟨m, -, hm, -⟩ := h.exists_walk (h.valid_of_goto_lhs hr hc.stacked.walk hgoto).2
    rw [Automaton.walk?_append, hc.stacked.walk] at hm
    exact ⟨m, by rw [hlabels]; exact hm⟩
  have hderF : g.Derives [s] (f.labels ++ F.labels ++ z) := by
    have hstep := (Grammar.Derives.of_rule hr).inside f.labels z
    rw [hlabels]
    refine hder.trans ?_
    simpa using hstep
  rw [hword] at hfront
  obtain ⟨steps, d, F', hruns, hlen, hd, hshapes, hdrest⟩ :=
    hF c k m f z front behind hc hm hderF hz hrest hfront hbehind
  have hlabels' : F'.labels = r.body := (Forest.labels_of_shapes hshapes).trans hlabels
  have haction := action_of_body h hfree hr hd hlabels' hc.stacked.walk hgoto hder hz
    (lookahead_eq hdrest hbehind)
  obtain ⟨st, st', e, n', hturn, -, -, -, -, herest, hlegal, hn'⟩ :=
    turn_reduce h hd hr hlabels' haction hc.stacked.walk hgoto
  refine ⟨steps ++ [st, st'], e, [n'], ?_, ?_, hlegal, ?_, herest.trans hdrest⟩
  · rw [hword, hinteriors, ← Nat.add_assoc]
    exact hruns.trans (Runs.single hturn)
  · rw [hword, hinteriors, List.length_append, hlen]
    simp
    omega
  · rw [Forest.shapes_cons, Forest.shapes_cons, hn'.shape, hn.shape, hshapes]

/-- Without conflicts every derivation tree is retraced. -/
theorem retraces_tree (h : Table.Tabular g s) (hfree : (Table.ofGrammar g).conflicts = [])
    {n : Node} (hn : n.IsDerivation g) : Retraces g s [n] := by
  -- over the derivation tree: a leaf is shifted, and below
  -- an interior node the children come before the reduction
  induction hn with
  | leaf id x value span hx =>
      intro c k l f z front behind hc hwalk _ _ hrest hfront _
      have hword : Forest.word [Node.leaf id x value span] = [x] := by
        rw [Forest.word_cons, Node.word_leaf _ _ _ (h.ne_of_mem (Or.inl hx)).1]
        rfl
      rw [hword] at hfront
      obtain ⟨a, rfl, rfl⟩ := List.map_eq_singleton_iff.mp hfront
      have hahead : c.lookahead = a := by
        rw [Configuration.lookahead, hrest]
        rfl
      have hgoto : (Automaton.build g).goto? k a.symbol = some l := by
        obtain ⟨j, hj, hjl⟩ := Option.bind_eq_some_iff.mp hwalk
        obtain rfl : j = l := Option.some.inj hjl
        exact hj
      obtain ⟨st, hst, he⟩ := h.goto?_eq_some_iff.mp hgoto
      -- without conflicts the edge over the terminal is the action of its cell
      have haction := h.action?_of_candidate hfree hst (.shift hx he)
      rw [← hc.state_eq, ← hahead] at haction
      rw [← hahead] at hx hgoto
      obtain ⟨step, d, n', hturn, -, -, hdrest, hd, -, -, hshape, -⟩ :=
        turn_shift h.toWellFormed hc haction hx hgoto
      refine ⟨[step], d, [n'], ?_, ?_, hd, ?_, ?_⟩
      · rw [hword]
        exact Runs.single hturn
      · rw [hword]
        simp
      · rw [Forest.shapes_cons, hshape, hahead]
        simp [Node.shape]
      · rw [hdrest, hrest]
        rfl
  | empty id k span span' value p r hr hbody =>
      have hmem := Grammar.mem_of_rule? hr
      obtain rfl := h.id_of_rule? hr
      have hnil : Retraces g s [] :=
        retraces_forest h.toWellFormed (fun n hn => absurd hn List.not_mem_nil)
          fun n hn => absurd hn List.not_mem_nil
      exact retraces_rule h hfree hmem (F := []) hbody.symm hnil
        (joins_empty h.toWellFormed hmem hbody id k span span' value)
  | rule id span children p r hr hbody hlabels hall ih =>
      have hmem := Grammar.mem_of_rule? hr
      obtain rfl := h.id_of_rule? hr
      exact retraces_rule h hfree hmem hlabels (retraces_forest h.toWellFormed hall ih)
        (joins_rule h.toWellFormed hmem hbody hlabels hall id span)

end Simulator

end ShiftReduce
