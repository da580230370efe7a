import Mathlib.Data.List.Induction
import ShiftReduce.Token.Basic
import ShiftReduce.Tree.Builder

/-! # Positions — numbers and spans in growing forests

    A forest grows by leaves for tokens, by leaves for the empty word, and by
    nodes above its last trees.  Each of the three gives the new node the next
    number, and a node comes behind its children; so the numbers in postorder
    count up from 0.  A node above trees has the smallest span that covers theirs.
    That this is the way from its first to its last leaf holds because all leaves
    stand in the order of the input: then the first tree begins first and the last
    one ends last (`Lined.spanOf_eq`). -/

namespace ShiftReduce

namespace Node

mutual

/-- All nodes of a tree, children before their parent. -/
def postorder : Node → List Node
  | .leaf id label value span => [.leaf id label value span]
  | .interior id label rule span children =>
    postorderAll children ++ [.interior id label rule span children]

/-- All nodes of several trees. -/
def postorderAll : List Node → List Node
  | [] => []
  | n :: ns => postorder n ++ postorderAll ns

end

/-- The span of a node goes from where its first leaf begins to where its last
    leaf ends. -/
def Spanned (n : Node) : Prop :=
  ∃ first last, n.leaves.head? = some first ∧ n.leaves.getLast? = some last ∧
    n.span = ⟨first.span.start, last.span.stop⟩

/-- A leaf for the empty word. -/
structure Vanishes (n : Node) : Prop where
  label : n.label = Symbol.epsilon
  value : n.value? = none

/-- A leaf for a stretch of input that reads like its label. -/
structure Shows (input : Bytes) (n : Node) : Prop where
  label : n.label ≠ Symbol.epsilon
  nonempty : n.span.start < n.span.stop
  inside : n.span.stop ≤ input.length
  value : n.value? = some ((input.drop n.span.start).take (n.span.stop - n.span.start))
  text : n.value? = some (Bytes.ofText n.label)

/-- The postorder of two forests side by side is one postorder behind the other. -/
@[simp] theorem postorderAll_append (ns ms : List Node) :
    postorderAll (ns ++ ms) = postorderAll ns ++ postorderAll ms := by
  induction ns with
  | nil => rfl
  | cons n ns ih => rw [List.cons_append, postorderAll, ih, postorderAll, List.append_assoc]

@[simp] theorem leavesAll_append (ns ms : List Node) :
    leavesAll (ns ++ ms) = leavesAll ns ++ leavesAll ms := by
  induction ns with
  | nil => rfl
  | cons n ns ih => rw [List.cons_append, leavesAll, ih, leavesAll, List.append_assoc]

@[simp] theorem postorderAll_singleton (n : Node) : postorderAll [n] = n.postorder :=
  List.append_nil _

@[simp] theorem leavesAll_singleton (n : Node) : leavesAll [n] = n.leaves :=
  List.append_nil _

/-- The leaves of an interior node are those of its children. -/
theorem leaves_interior (id : Nat) (label : Symbol) (rule : Int) (span : Span) {ns : List Node}
    (h : ns ≠ []) : (Node.interior id label rule span ns).leaves = leavesAll ns := by
  obtain ⟨c, cs, rfl⟩ := List.exists_cons_of_ne_nil h
  rw [leaves]

/-- A node is in its own postorder, as the last of it. -/
theorem mem_postorder_self (n : Node) : n ∈ n.postorder := by
  cases n with
  | leaf id label value span => exact List.mem_singleton.mpr rfl
  | interior id label rule span children => exact List.mem_append_right _ (List.mem_singleton.mpr rfl)

theorem mem_postorderAll {n : Node} {ns : List Node} (h : n ∈ ns) : n ∈ postorderAll ns := by
  obtain ⟨front, back, rfl⟩ := List.append_of_mem h
  rw [postorderAll_append, postorderAll]
  exact List.mem_append_right _ (List.mem_append_left _ n.mem_postorder_self)

theorem spanned_leaf (id : Nat) (label : Symbol) (value : Option Bytes) (span : Span) :
    (Node.leaf id label value span).Spanned :=
  ⟨_, _, rfl, rfl, rfl⟩

/-! ## Nodes in line -/

/-- Nodes side by side in the order of the input, none of which is turned
    around. -/
structure Lined (ns : List Node) : Prop where
  ordered : ns.Pairwise fun m n => m.span.stop ≤ n.span.start
  forward : ∀ n ∈ ns, n.span.start ≤ n.span.stop

/-- The first part of a row of leaves without gaps has no gaps. -/
theorem Lined.append_left {ns ms : List Node} (h : Lined (ns ++ ms)) : Lined ns where
  ordered := (List.pairwise_append.mp h.ordered).1
  forward := fun n hn => h.forward n (List.mem_append_left _ hn)

theorem Lined.append_right {ns ms : List Node} (h : Lined (ns ++ ms)) : Lined ms where
  ordered := (List.pairwise_append.mp h.ordered).2.1
  forward := fun n hn => h.forward n (List.mem_append_right _ hn)

/-- Another node may follow if all those before it have ended. -/
theorem Lined.concat {ns : List Node} (h : Lined ns) {n : Node}
    (hbehind : ∀ m ∈ ns, m.span.stop ≤ n.span.start) (hn : n.span.start ≤ n.span.stop) :
    Lined (ns ++ [n]) where
  ordered := by
    refine List.pairwise_append.mpr ⟨h.ordered, List.pairwise_singleton _ n, ?_⟩
    intro m hm n' hn'
    rw [List.mem_singleton.mp hn']
    exact hbehind m hm
  forward := by
    intro m hm
    rcases List.mem_append.mp hm with hm | hm
    · exact h.forward m hm
    · rw [List.mem_singleton.mp hm]
      exact hn

/-- The first node in line begins before the last one ends. -/
theorem Lined.start_le_stop {ns : List Node} (h : Lined ns) {first last : Node}
    (hfirst : ns.head? = some first) (hlast : ns.getLast? = some last) :
    first.span.start ≤ last.span.stop := by
  obtain ⟨ns, rfl⟩ := List.head?_eq_some_iff.mp hfirst
  have hforward := h.forward first List.mem_cons_self
  rcases List.mem_cons.mp (List.mem_of_getLast? hlast) with rfl | hmem
  · exact hforward
  · have hbefore := (List.pairwise_cons.mp h.ordered).1 last hmem
    have hend := h.forward last (List.mem_cons_of_mem _ hmem)
    omega

/-- Trees whose leaves are in line are in line themselves. -/
theorem Lined.trees : ∀ {ns : List Node}, Lined (leavesAll ns) → (∀ n ∈ ns, n.Spanned) →
    Lined ns := by
  intro ns
  induction ns with
  | nil => exact fun _ _ => ⟨.nil, nofun⟩
  | cons n ns ih =>
      intro h hspanned
      rw [leavesAll] at h
      have hns := ih h.append_right fun m hm => hspanned m (List.mem_cons_of_mem _ hm)
      obtain ⟨first, last, hfirst, hlast, hspan⟩ := hspanned n List.mem_cons_self
      refine ⟨List.pairwise_cons.mpr ⟨?_, hns.ordered⟩, ?_⟩
      · -- the last leaf of one tree comes before the first leaf of a later one
        intro m hm
        obtain ⟨first', last', hfirst', -, hspan'⟩ := hspanned m (List.mem_cons_of_mem _ hm)
        obtain ⟨front, back, rfl⟩ := List.append_of_mem hm
        rw [hspan, hspan']
        refine (List.pairwise_append.mp h.ordered).2.2 last (List.mem_of_getLast? hlast) first' ?_
        rw [leavesAll_append, leavesAll]
        exact List.mem_append_right _ (List.mem_append_left _ (List.mem_of_head? hfirst'))
      · intro m hm
        rcases List.mem_cons.mp hm with rfl | hm
        · rw [hspan]
          exact h.append_left.start_le_stop hfirst hlast
        · exact hns.forward m hm

/-- The smallest span that covers nodes in line. -/
theorem Lined.spanOf_eq {ns : List Node} (h : Lined ns) {first last : Node}
    (hfirst : ns.head? = some first) (hlast : ns.getLast? = some last) :
    Tree.Builder.spanOf ns = ⟨first.span.start, last.span.stop⟩ := by
  obtain ⟨ns, rfl⟩ := List.head?_eq_some_iff.mp hfirst
  show ns.foldl (fun s m => s.extend m.span) first.span = _
  -- from the right, so that the span to be extended reaches to the end of the node before
  induction ns using List.reverseRecOn generalizing last with
  | nil =>
      obtain rfl := Option.some.inj hlast
      rfl
  | append_singleton ns n ih =>
      rw [← List.cons_append] at h hlast
      obtain rfl : n = last := Option.some.inj (List.getLast?_concat.symm.trans hlast)
      obtain ⟨m, hm⟩ : ∃ m, (first :: ns).getLast? = some m :=
        ⟨_, List.getLast?_eq_some_getLast (List.cons_ne_nil _ _)⟩
      have hfront := h.append_left.start_le_stop rfl hm
      have hbehind := (List.pairwise_append.mp h.ordered).2.2 m (List.mem_of_getLast? hm) n
        (List.mem_singleton.mpr rfl)
      have hforward := h.forward n (List.mem_append_right _ (List.mem_singleton.mpr rfl))
      rw [List.foldl_append, ih h.append_left rfl hm]
      show Span.extend ⟨first.span.start, m.span.stop⟩ n.span = _
      rw [Span.extend]
      congr 1
      · show min first.span.start n.span.start = _
        omega
      · show max m.span.stop n.span.stop = _
        omega

/-- A node above trees is spanned if they are. -/
theorem spanned_interior (id : Nat) (label : Symbol) (rule : Int) {ns : List Node} (hne : ns ≠ [])
    (h : Lined (leavesAll ns)) (hspanned : ∀ n ∈ ns, n.Spanned) :
    (Node.interior id label rule (Tree.Builder.spanOf ns) ns).Spanned := by
  obtain ⟨n, hn⟩ : ∃ n, ns.head? = some n := ⟨_, List.head?_eq_some_head hne⟩
  obtain ⟨m, hm⟩ : ∃ m, ns.getLast? = some m := ⟨_, List.getLast?_eq_some_getLast hne⟩
  obtain ⟨first, _, hfirst, -, hspan⟩ := hspanned n (List.mem_of_head? hn)
  obtain ⟨_, last, -, hlast, hspan'⟩ := hspanned m (List.mem_of_getLast? hm)
  refine ⟨first, last, ?_, ?_, ?_⟩
  · obtain ⟨ns, rfl⟩ := List.head?_eq_some_iff.mp hn
    rw [leaves_interior _ _ _ _ hne, leavesAll, List.head?_append, hfirst]
    rfl
  · obtain ⟨ns, rfl⟩ := List.getLast?_eq_some_iff.mp hm
    rw [leaves_interior _ _ _ _ hne, leavesAll_append, leavesAll_singleton, List.getLast?_append,
      hlast]
    rfl
  · show Tree.Builder.spanOf ns = _
    rw [(h.trees hspanned).spanOf_eq hn hm, hspan, hspan']

end Node

/-! ## Forests -/

namespace Forest

/-- What a forest says about the tokens it was made of: its nodes are numbered in
    postorder, its leaves stand in the order of the input and are those of the
    tokens but for the empty word, and every node spans its leaves. -/
structure Exact (input : Bytes) (consumed : List Token) (f : Forest) : Prop where
  numbered : (Node.postorderAll f).map Node.id = List.range (Node.postorderAll f).length
  ordered : (Node.leavesAll f).Pairwise fun m n => m.span.stop ≤ n.span.start
  leaves : ∀ n ∈ Node.leavesAll f, n.Vanishes ∨ n.Shows input
  consumed : ((Node.leavesAll f).filter fun n => n.label != Symbol.epsilon).map
    (fun n => (n.label, n.span)) = consumed.map fun t => (t.symbol, t.span)
  spanned : ∀ n ∈ Node.postorderAll f, n.Spanned

/-- A forest that has grown: the next number and the position up to which its
    leaves reach. -/
structure Grows (input : Bytes) (consumed : List Token) (count reach : Nat) (f : Forest) : Prop
    extends Exact input consumed f where
  counted : (Node.postorderAll f).length = count
  forward : ∀ n ∈ Node.leavesAll f, n.span.start ≤ n.span.stop
  reaches : ∀ n ∈ Node.leavesAll f, n.span.stop ≤ reach

variable {input : Bytes} {consumed : List Token} {count reach : Nat} {f f' : Forest}

theorem grows_nil (input : Bytes) (reach : Nat) : Grows input [] 0 reach [] where
  numbered := rfl
  ordered := .nil
  leaves := nofun
  consumed := rfl
  spanned := nofun
  counted := rfl
  forward := nofun
  reaches := nofun

namespace Grows

theorem lined (h : Grows input consumed count reach f) : Node.Lined (Node.leavesAll f) :=
  ⟨h.ordered, h.forward⟩

theorem mono (h : Grows input consumed count reach f) {reach' : Nat} (hle : reach ≤ reach') :
    Grows input consumed count reach' f :=
  { h with reaches := fun n hn => Nat.le_trans (h.reaches n hn) hle }

/-- The next number goes to a node that comes last in postorder. -/
theorem numbered_concat (h : Grows input consumed count reach f) {n : Node} (hid : n.id = count)
    {nodes : List Node} (hnodes : nodes = Node.postorderAll f ++ [n]) :
    nodes.map Node.id = List.range nodes.length ∧ nodes.length = count + 1 := by
  have hlength : nodes.length = count + 1 := by
    rw [hnodes, List.length_append, h.counted, List.length_singleton]
  refine ⟨?_, hlength⟩
  rw [hlength, hnodes, List.map_append, h.numbered, h.counted, List.range_succ, List.map_singleton,
    hid]

/-- A leaf behind all others. -/
theorem leaf (h : Grows input consumed count reach f) {label : Symbol} {value : Option Bytes}
    {span : Span} (hreach : reach ≤ span.start) (hforward : span.start ≤ span.stop)
    (hleaf : (Node.leaf count label value span).Vanishes ∨
      (Node.leaf count label value span).Shows input) {later : List Token}
    (hlater : (if label = Symbol.epsilon then [] else [(label, span)]) =
      later.map fun t => (t.symbol, t.span)) :
    Grows input (consumed ++ later) (count + 1) span.stop
      (f ++ [.leaf count label value span]) := by
  have hleaves : Node.leavesAll (f ++ [.leaf count label value span]) =
      Node.leavesAll f ++ [.leaf count label value span] := by
    rw [Node.leavesAll_append, Node.leavesAll_singleton, Node.leaves]
  have hnodes : Node.postorderAll (f ++ [.leaf count label value span]) =
      Node.postorderAll f ++ [.leaf count label value span] := by
    rw [Node.postorderAll_append, Node.postorderAll_singleton, Node.postorder]
  -- in postorder and among the leaves alike, the new leaf comes last
  obtain ⟨hnumbered, hcounted⟩ := h.numbered_concat (n := .leaf count label value span) rfl hnodes
  have hlined := h.lined.concat (n := .leaf count label value span)
    (fun m hm => Nat.le_trans (h.reaches m hm) hreach) hforward
  rw [← hleaves] at hlined
  refine
    { numbered := hnumbered, ordered := hlined.ordered, leaves := ?_, consumed := ?_, spanned := ?_
      counted := hcounted, forward := hlined.forward, reaches := ?_ }
  · intro n hn
    rw [hleaves] at hn
    rcases List.mem_append.mp hn with hn | hn
    · exact h.leaves n hn
    · rw [List.mem_singleton.mp hn]
      exact hleaf
  · rw [hleaves, List.filter_append, List.map_append, h.consumed, List.map_append, ← hlater]
    by_cases hlabel : label = Symbol.epsilon
    · simp [Node.label, hlabel]
    · simp [Node.label, Node.span, hlabel]
  · intro n hn
    rw [hnodes] at hn
    rcases List.mem_append.mp hn with hn | hn
    · exact h.spanned n hn
    · rw [List.mem_singleton.mp hn]
      exact Node.spanned_leaf _ _ _ _
  · intro n hn
    rw [hleaves] at hn
    rcases List.mem_append.mp hn with hn | hn
    · exact Nat.le_trans (h.reaches n hn) (Nat.le_trans hreach hforward)
    · rw [List.mem_singleton.mp hn]
      exact Nat.le_refl _

/-- A node above the last trees. -/
theorem join (h : Grows input consumed count reach (f ++ f')) (hne : f' ≠ []) (label : Symbol)
    (rule : Int) :
    Grows input consumed (count + 1) reach
      (f ++ [.interior count label rule (Tree.Builder.spanOf f') f']) := by
  -- the leaves stay as they are, and the new node comes last in postorder
  have hleaves : Node.leavesAll
      (f ++ [.interior count label rule (Tree.Builder.spanOf f') f']) =
        Node.leavesAll (f ++ f') := by
    rw [Node.leavesAll_append, Node.leavesAll_singleton, Node.leaves_interior _ _ _ _ hne,
      Node.leavesAll_append]
  have hnodes : Node.postorderAll
      (f ++ [.interior count label rule (Tree.Builder.spanOf f') f']) =
        Node.postorderAll (f ++ f') ++
          [.interior count label rule (Tree.Builder.spanOf f') f'] := by
    rw [Node.postorderAll_append, Node.postorderAll_singleton, Node.postorder,
      Node.postorderAll_append, List.append_assoc]
  obtain ⟨hnumbered, hcounted⟩ := h.numbered_concat rfl hnodes
  refine
    { numbered := hnumbered, ordered := hleaves ▸ h.ordered, leaves := hleaves ▸ h.leaves
      consumed := hleaves ▸ h.consumed, spanned := ?_, counted := hcounted
      forward := hleaves ▸ h.forward, reaches := hleaves ▸ h.reaches }
  intro n hn
  rw [hnodes] at hn
  rcases List.mem_append.mp hn with hn | hn
  · exact h.spanned n hn
  · rw [List.mem_singleton.mp hn]
    have hlined := h.lined
    rw [Node.leavesAll_append] at hlined
    refine Node.spanned_interior _ _ _ hne hlined.append_right fun m hm => h.spanned m ?_
    exact Node.mem_postorderAll (List.mem_append_right _ hm)

end Grows

end Forest

end ShiftReduce
