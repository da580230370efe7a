import ShiftReduce.Proofs.Grammar.Derivation
import ShiftReduce.Tree.Node

/-! # Derivation trees — parse trees that follow the rules of a grammar

    A parse tree is a derivation tree if every leaf is a terminal and every
    interior node carries a rule, with the left side as its label and the body
    as the labels of its children; an empty body is one leaf for the empty
    word.  Derivation trees and derivations of words are two views of the same
    thing:

    * the label of a derivation tree derives its word (`IsDerivation.derives`);
    * every form that derives a word is the row of labels of a forest of
      derivation trees with that word (`Derives.exists_forest`). -/

namespace ShiftReduce

namespace Node

/-- What is left of a tree without numbers, values and spans. -/
inductive Shape where
  | leaf (label : Symbol)
  | interior (label : Symbol) (rule : Int) (children : List Shape)

mutual

/-- The labels and the rules of a tree. -/
def shape : Node → Shape
  | .leaf _ label _ _ => .leaf label
  | .interior _ label rule _ children => .interior label rule (shapeAll children)

/-- The labels and the rules of several trees. -/
def shapeAll : List Node → List Shape
  | [] => []
  | n :: ns => shape n :: shapeAll ns

end

mutual

/-- The number of interior nodes. -/
def interiors : Node → Nat
  | .leaf .. => 0
  | .interior _ _ _ _ children => 1 + interiorsAll children

/-- The number of interior nodes of several trees. -/
def interiorsAll : List Node → Nat
  | [] => 0
  | n :: ns => interiors n + interiorsAll ns

end

/-- The labels of the leaves from left to right, but for the empty word. -/
def word (n : Node) : List Symbol :=
  (n.leaves.map label).filter fun s => s != Symbol.epsilon

/-- A tree that follows the rules of a grammar. -/
inductive IsDerivation (g : Grammar) : Node → Prop where
  | leaf (id : Nat) (s : Symbol) (value : Option Bytes) (span : Span) (hs : s ∈ g.terminals) :
      IsDerivation g (.leaf id s value span)
  | empty (id k : Nat) (span span' : Span) (value : Option Bytes) (p : Int) (r : Production)
      (hr : g.rule? p = some r) (hbody : r.body = []) :
      IsDerivation g (.interior id r.lhs p span [.leaf k Symbol.epsilon value span'])
  | rule (id : Nat) (span : Span) (children : List Node) (p : Int) (r : Production)
      (hr : g.rule? p = some r) (hbody : r.body ≠ [])
      (hlabels : children.map label = r.body) (hall : ∀ c ∈ children, IsDerivation g c) :
      IsDerivation g (.interior id r.lhs p span children)

end Node

namespace Forest

/-- The words of the trees, side by side. -/
def word (f : Forest) : List Symbol :=
  f.flatMap Node.word

/-- The number of interior nodes of all trees. -/
def interiors (f : Forest) : Nat :=
  Node.interiorsAll f

/-- The labels and the rules of all trees. -/
def shapes (f : Forest) : List Node.Shape :=
  f.map Node.shape

/-- Every tree follows the rules of a grammar. -/
def IsDerivation (g : Grammar) (f : Forest) : Prop :=
  ∀ n ∈ f, n.IsDerivation g

@[simp] theorem word_nil : word [] = [] := rfl

@[simp] theorem word_cons (n : Node) (f : Forest) : word (n :: f) = n.word ++ word f := rfl

/-- The word of two forests side by side is their words one after the other. -/
@[simp] theorem word_append (f f' : Forest) : word (f ++ f') = word f ++ word f' :=
  List.flatMap_append

@[simp] theorem interiors_nil : interiors [] = 0 := rfl

@[simp] theorem interiors_cons (n : Node) (f : Forest) :
    interiors (n :: f) = n.interiors + interiors f := rfl

@[simp] theorem interiors_append (f f' : Forest) :
    interiors (f ++ f') = interiors f + interiors f' := by
  induction f with
  | nil => simp
  | cons n f ih => simp [ih, Nat.add_assoc]

@[simp] theorem shapes_nil : shapes [] = [] := rfl

@[simp] theorem shapes_cons (n : Node) (f : Forest) : shapes (n :: f) = n.shape :: shapes f := rfl

@[simp] theorem shapes_append (f f' : Forest) : shapes (f ++ f') = shapes f ++ shapes f' :=
  List.map_append

@[simp] theorem labels_nil : labels [] = [] := rfl

@[simp] theorem labels_cons (n : Node) (f : Forest) : labels (n :: f) = n.label :: labels f := rfl

@[simp] theorem labels_append (f f' : Forest) : labels (f ++ f') = labels f ++ labels f' :=
  List.map_append

/-- Derivation trees side by side are derivation trees. -/
theorem IsDerivation.append {g : Grammar} {f f' : Forest} (h : IsDerivation g f)
    (h' : IsDerivation g f') : IsDerivation g (f ++ f') := by
  intro n hn
  rcases List.mem_append.mp hn with hn | hn
  · exact h n hn
  · exact h' n hn

end Forest

namespace Node

theorem shapeAll_eq (ns : List Node) : shapeAll ns = Forest.shapes ns := by
  induction ns with
  | nil => rfl
  | cons n ns ih => rw [shapeAll, ih, Forest.shapes_cons]

/-- The shape of an interior node keeps its label, its rule and the shapes below it, and
    forgets number and span. -/
@[simp] theorem shape_interior (id : Nat) (label : Symbol) (p : Int) (span : Span)
    (children : List Node) :
    (Node.interior id label p span children).shape
      = .interior label p (Forest.shapes children) := by
  rw [shape, shapeAll_eq]

@[simp] theorem interiors_interior (id : Nat) (label : Symbol) (p : Int) (span : Span)
    (children : List Node) :
    (Node.interior id label p span children).interiors = 1 + Forest.interiors children := by
  rw [interiors, Forest.interiors]

@[simp] theorem interiors_leaf (id : Nat) (label : Symbol) (value : Option Bytes) (span : Span) :
    (Node.leaf id label value span).interiors = 0 := by
  rw [interiors]

/-- The word of a forest is read off its leaves, those for the empty word left out. -/
theorem filter_leavesAll (ns : List Node) :
    ((leavesAll ns).map label).filter (fun s => s != Symbol.epsilon) = Forest.word ns := by
  induction ns with
  | nil => rfl
  | cons n ns ih =>
      rw [leavesAll, List.map_append, List.filter_append, ih]
      rfl

/-- The word of an interior node is that of its children. -/
theorem word_interior (id : Nat) (label : Symbol) (p : Int) (span : Span) {children : List Node}
    (h : children ≠ []) :
    (Node.interior id label p span children).word = Forest.word children := by
  obtain ⟨c, cs, rfl⟩ := List.exists_cons_of_ne_nil h
  rw [word, leaves, filter_leavesAll]

theorem word_leaf (id : Nat) {s : Symbol} (value : Option Bytes) (span : Span)
    (h : s ≠ Symbol.epsilon) : (Node.leaf id s value span).word = [s] := by
  rw [word, leaves]
  simp [label, h]

@[simp] theorem word_epsilonLeaf (id : Nat) (value : Option Bytes) (span : Span) :
    (Node.leaf id Symbol.epsilon value span).word = [] := by
  rw [word, leaves]
  simp [label]

theorem ne_nil_of_labels {children : List Node} {body : List Symbol}
    (hlabels : children.map label = body) (hbody : body ≠ []) : children ≠ [] := by
  rintro rfl
  exact hbody hlabels.symm

end Node

namespace Forest

variable {g : Grammar}

/-- If every label derives the word of its tree, so do all labels together. -/
theorem derives_of_forall : ∀ {f : Forest},
    (∀ n ∈ f, g.Derives [n.label] n.word ∧ g.IsWord n.word) →
      g.Derives f.labels f.word ∧ g.IsWord f.word := by
  intro f
  induction f with
  | nil => intro _; exact ⟨Grammar.Derives.refl _, fun s hs => nomatch hs⟩
  | cons n f ih =>
      intro h
      obtain ⟨hn, hnw⟩ := h n List.mem_cons_self
      obtain ⟨hf, hfw⟩ := ih fun m hm => h m (List.mem_cons_of_mem _ hm)
      exact ⟨hn.append hf, hnw.append hfw⟩

end Forest

/-- The label of a derivation tree derives its word. -/
theorem Node.IsDerivation.derives {g : Grammar} (hg : g.WellFormed) {n : Node}
    (h : n.IsDerivation g) : g.Derives [n.label] n.word ∧ g.IsWord n.word := by
  induction h with
  | leaf id s value span hs =>
      rw [word_leaf id value span (hg.ne_of_mem (Or.inl hs)).1]
      refine ⟨Grammar.Derives.refl _, ?_⟩
      intro x hx
      obtain rfl := List.mem_singleton.mp hx
      exact hs
  | empty id k span span' value p r hr hbody =>
      have hrule := Grammar.Derives.of_rule (Grammar.mem_of_rule? hr)
      rw [hbody] at hrule
      rw [word_interior id r.lhs p span (by simp)]
      simpa [Node.label, Grammar.IsWord] using hrule
  | rule id span children p r hr hbody hlabels hall ih =>
      have hrule := Grammar.Derives.of_rule (Grammar.mem_of_rule? hr)
      obtain ⟨hbelow, hword⟩ := Forest.derives_of_forall ih
      rw [word_interior id r.lhs p span (ne_nil_of_labels hlabels hbody)]
      rw [← hlabels] at hrule
      exact ⟨hrule.trans hbelow, hword⟩

/-- A forest of derivation trees witnesses that its labels derive its word; the
    induction is over the trees, one derivation step for each interior node. -/
theorem Forest.IsDerivation.derives {g : Grammar} (hg : g.WellFormed) {f : Forest}
    (h : f.IsDerivation g) : g.Derives f.labels f.word ∧ g.IsWord f.word :=
  Forest.derives_of_forall fun n hn => (h n hn).derives hg

/-! ## Trees from derivations -/

/-- Children that fit a rule can be put under a node. -/
theorem Grammar.WellFormed.exists_node {g : Grammar} (hg : g.WellFormed) {r : Production}
    (hr : r ∈ g.rules) {f : Forest} (hlabels : f.labels = r.body) (hf : f.IsDerivation g) :
    ∃ n : Node, n.label = r.lhs ∧ n.word = f.word ∧ n.IsDerivation g := by
  by_cases hbody : r.body = []
  · obtain rfl : f = [] := List.map_eq_nil_iff.mp (hlabels.trans hbody)
    refine ⟨.interior 0 r.lhs r.id Span.zero [.leaf 0 Symbol.epsilon none Span.zero], rfl, ?_,
      .empty _ _ _ _ _ _ r (hg.rule?_id hr) hbody⟩
    rw [Node.word_interior _ _ _ _ (by simp)]
    simp
  · exact ⟨.interior 0 r.lhs r.id Span.zero f, rfl,
      Node.word_interior _ _ _ _ (Node.ne_nil_of_labels hlabels hbody),
      .rule _ _ _ _ r (hg.rule?_id hr) hbody hlabels hf⟩

/-- A form that derives a word is the row of labels of a forest of derivation
    trees with that word. -/
theorem Grammar.Derives.exists_forest {g : Grammar} (hg : g.WellFormed) {u w : List Symbol}
    (h : g.Derives u w) (hw : g.IsWord w) :
    ∃ f : Forest, f.labels = u ∧ f.word = w ∧ f.IsDerivation g := by
  -- from the end of the derivation backwards: every step joins some trees into one
  induction h using Relation.ReflTransGen.head_induction_on with
  | refl =>
      refine ⟨w.map fun s => .leaf 0 s none Span.zero, ?_, ?_, ?_⟩
      · rw [Forest.labels, List.map_map]
        exact List.map_id w
      · induction w with
        | nil => rfl
        | cons s w ih =>
            rw [List.map_cons, Forest.word_cons,
              Node.word_leaf _ _ _ (hg.ne_of_mem (Or.inl (hw s List.mem_cons_self))).1,
              ih fun x hx => hw x (List.mem_cons_of_mem _ hx)]
            rfl
      · intro n hn
        obtain ⟨s, hs, rfl⟩ := List.mem_map.mp hn
        exact .leaf _ _ _ _ (hw s hs)
  | head hstep _ ih =>
      obtain ⟨a, b, r, hr⟩ := hstep
      obtain ⟨f, hlabels, hword, hf⟩ := ih
      obtain ⟨front, back, rfl, hfront, hback⟩ := List.map_eq_append_iff.mp hlabels
      obtain ⟨left, middle, rfl, hleft, hmiddle⟩ := List.map_eq_append_iff.mp hfront
      obtain ⟨n, hn, hnword, hder⟩ := hg.exists_node hr hmiddle
        fun m hm => hf m (by simp [hm])
      refine ⟨left ++ n :: back, ?_, ?_, ?_⟩
      · rw [Forest.labels_append, Forest.labels_cons, hn]
        exact congrArg₂ _ hleft (congrArg _ hback)
      · rw [← hword]
        simp [hnword]
      · intro m hm
        simp only [List.mem_append, List.mem_cons] at hm
        rcases hm with hm | rfl | hm
        · exact hf m (by simp [hm])
        · exact hder
        · exact hf m (by simp [hm])

end ShiftReduce
