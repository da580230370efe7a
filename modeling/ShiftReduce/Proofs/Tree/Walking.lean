import Mathlib.Data.List.Induction
import Mathlib.Data.List.Perm.Basic
import ShiftReduce.Tree.Walk

/-! # Walking — the two directions of a walk mirror each other

    A walk visits children by an index and puts their values at their places.  The
    index goes through all children, up or down, and stops by itself; so the values
    are those of the children in the order in which they stand, and only the order
    of the calls depends on the direction (`sweepFrom_eq`).  Hence the calls of a
    walk are known from the calls for the children (`calls_parent`), and all laws
    follow by induction on the tree: a walk from the right is one from the left read
    backwards, and it visits the nodes below which all is admitted.

    A node may occur in a tree more than once.  An occurrence is a node together
    with the nodes above it; `lineages` lists all of them. -/

namespace ShiftReduce

namespace Node

/-- What holds of a node whenever it holds of its children holds of all nodes. -/
theorem induct {P : Node → Prop} (childless : ∀ n : Node, n.children = [] → P n)
    (parent : ∀ n : Node, n.children ≠ [] → (∀ c ∈ n.children, P c) → P n) (n : Node) : P n := by
  refine Node.rec (motive_1 := P) (motive_2 := fun ns => ∀ c ∈ ns, P c) ?_ ?_ ?_ ?_ n
  · exact fun _ _ _ _ => childless _ rfl
  · intro id label rule span ns ih
    by_cases hns : ns = []
    · exact childless _ hns
    · exact parent _ hns ih
  · exact fun c hc => nomatch hc
  · intro n ns hn hns c hc
    rcases List.mem_cons.mp hc with rfl | hc
    · exact hn
    · exact hns c hc

mutual

/-- All nodes of a tree, parents before their children, each with the nodes above
    it, the nearest first. -/
def lineages (above : List Node) : Node → List (Node × List Node)
  | .leaf id label value span => [(.leaf id label value span, above)]
  | .interior id label rule span children =>
    (.interior id label rule span children, above)
      :: lineagesAll (.interior id label rule span children :: above) children

/-- All nodes of several trees below the same nodes. -/
def lineagesAll (above : List Node) : List Node → List (Node × List Node)
  | [] => []
  | n :: ns => lineages above n ++ lineagesAll above ns

end

theorem lineagesAll_eq (above : List Node) (ns : List Node) :
    lineagesAll above ns = ns.flatMap (lineages above) := by
  induction ns with
  | nil => rfl
  | cons n ns ih => rw [lineagesAll, ih, List.flatMap_cons]

/-- A node comes with the nodes above it, then its children come with itself on top of
    these. -/
theorem lineages_eq (above : List Node) (n : Node) :
    n.lineages above = (n, above) :: n.children.flatMap (lineages (n :: above)) := by
  cases n with
  | leaf id label value span => rfl
  | interior id label rule span children => rw [lineages, lineagesAll_eq, Node.children]

theorem size_eq (n : Node) : n.size = sizeAll n.children + 1 := by
  cases n with
  | leaf id label value span => rfl
  | interior id label rule span children => rw [size, Node.children, Nat.add_comm]

theorem leavesAll_eq (ns : List Node) : leavesAll ns = ns.flatMap leaves := by
  induction ns with
  | nil => rfl
  | cons n ns ih => rw [leavesAll, ih, List.flatMap_cons]

theorem leaves_childless {n : Node} (h : n.children = []) : n.leaves = [n] := by
  cases n with
  | leaf id label value span => rfl
  | interior id label rule span children =>
      obtain rfl : children = [] := h
      rfl

theorem leaves_parent {n : Node} (h : n.children ≠ []) : n.leaves = n.children.flatMap leaves := by
  cases n with
  | leaf id label value span => exact absurd rfl h
  | interior id label rule span children =>
      obtain ⟨c, cs, rfl⟩ := List.exists_cons_of_ne_nil (show children ≠ [] from h)
      rw [leaves, leavesAll_eq, Node.children]

theorem length_lineagesAll {ns above : List Node}
    (h : ∀ n ∈ ns, (n.lineages above).length = n.size) :
    (lineagesAll above ns).length = sizeAll ns := by
  induction ns with
  | nil => rfl
  | cons n ns ih =>
      rw [lineagesAll, List.length_append, sizeAll, h n List.mem_cons_self,
        ih fun m hm => h m (List.mem_cons_of_mem n hm)]

/-- There are as many nodes with those above them as the tree has nodes. -/
theorem length_lineages (n : Node) (above : List Node) : (n.lineages above).length = n.size := by
  induction n using induct generalizing above with
  | childless n hn =>
      rw [lineages_eq, size_eq, hn]
      rfl
  | parent n _ ih =>
      rw [lineages_eq, size_eq, List.length_cons, ← lineagesAll_eq,
        length_lineagesAll fun c hc => ih c hc (n :: above)]

/-- Below a node, the nodes above begin with what was above it. -/
theorem suffix_of_mem_lineages (n : Node) (above : List Node) :
    ∀ x ∈ n.lineages above, above <:+ x.2 := by
  induction n using induct generalizing above with
  | childless n hn =>
      intro x hx
      rw [lineages_eq, hn, List.flatMap_nil, List.mem_singleton] at hx
      subst hx
      exact List.suffix_rfl
  | parent n _ ih =>
      intro x hx
      rw [lineages_eq] at hx
      rcases List.mem_cons.mp hx with rfl | hx
      · exact List.suffix_rfl
      · obtain ⟨c, hc, hx⟩ := List.mem_flatMap.mp hx
        exact (List.suffix_cons n above).trans (ih c hc _ x hx)

end Node

namespace Tree

variable {β : Type}

/-! ## The children of a node -/

/-- The order in which a direction visits. -/
def Direction.order {α : Type} : Direction → List α → List α
  | .leftToRight, xs => xs
  | .rightToLeft, xs => xs.reverse

theorem Direction.order_perm {α : Type} (dir : Direction) (xs : List α) : (dir.order xs).Perm xs := by
  cases dir with
  | leftToRight => exact List.Perm.refl xs
  | rightToLeft => exact xs.reverse_perm

theorem Direction.order_map {α γ : Type} (dir : Direction) (f : α → γ) (xs : List α) :
    dir.order (xs.map f) = (dir.order xs).map f := by
  cases dir with
  | leftToRight => rfl
  | rightToLeft => exact List.map_reverse.symm

theorem Direction.mem_order {α : Type} {dir : Direction} {xs : List α} {x : α} :
    x ∈ dir.order xs ↔ x ∈ xs :=
  (dir.order_perm xs).mem_iff

section Sweeping

variable {dir : Direction} {walks : List (β × List (Call β))} {t : Tour β}

/-- The sweep ends at the stop of its direction, with any fuel left. -/
theorem sweepFrom_stop {i : Int} (h : i = dir.stop walks.length) (fuel : Nat) :
    sweepFrom dir walks fuel i t = t := by
  cases fuel with
  | zero => rfl
  | succ fuel => rw [sweepFrom, if_pos h]

/-- In front of the stop, the child at the index is recorded and one stride taken. -/
theorem sweepFrom_visit {k : Nat} (h : (k : Int) ≠ dir.stop walks.length)
    {walked : β × List (Call β)} (hk : walks[k]? = some walked) (fuel : Nat) :
    sweepFrom dir walks (fuel + 1) k t
      = sweepFrom dir walks fuel (k + dir.stride) (t.record k walked) := by
  rw [sweepFrom, if_neg h, show entryAt? walks k = some walked from hk]
  rfl

/-- On the way up, what is in front of the index has been visited. -/
theorem sweepFrom_leftToRight (front back : List (β × List (Call β))) (calls : List (Call β))
    {fuel : Nat} (hfuel : back.length ≤ fuel) :
    sweepFrom .leftToRight (front ++ back) fuel front.length
        ⟨front.map (fun w => some w.1) ++ List.replicate back.length none, calls⟩
      = ⟨(front ++ back).map fun w => some w.1, calls ++ back.flatMap Prod.snd⟩ := by
  induction back generalizing front calls fuel with
  | nil =>
      rw [sweepFrom_stop (by simp [Direction.stop])]
      simp
  | cons w back ih =>
      obtain ⟨fuel, rfl⟩ := Nat.exists_eq_add_one_of_ne_zero (Nat.ne_zero_of_lt hfuel)
      have hne : (front.length : Int) ≠ Direction.leftToRight.stop (front ++ w :: back).length := by
        simp only [Direction.stop, List.length_append, List.length_cons]
        omega
      have hk : (front ++ w :: back)[front.length]? = some w := by simp
      have hnext := ih (front ++ [w]) (calls ++ w.2) (Nat.le_of_succ_le_succ hfuel)
      rw [sweepFrom_visit hne hk, Tour.record]
      simpa [Direction.stride, List.replicate_succ] using hnext

/-- On the way down, what is behind the index has been visited. -/
theorem sweepFrom_rightToLeft (front back : List (β × List (Call β))) (calls : List (Call β))
    {fuel : Nat} (hfuel : front.length ≤ fuel) :
    sweepFrom .rightToLeft (front ++ back) fuel ((front.length : Int) - 1)
        ⟨List.replicate front.length none ++ back.map (fun w => some w.1), calls⟩
      = ⟨(front ++ back).map fun w => some w.1, calls ++ front.reverse.flatMap Prod.snd⟩ := by
  induction front using List.reverseRecOn generalizing back calls fuel with
  | nil =>
      rw [sweepFrom_stop (by simp [Direction.stop])]
      simp
  | append_singleton front w ih =>
      rw [List.length_append, List.length_singleton] at hfuel
      obtain ⟨fuel, rfl⟩ := Nat.exists_eq_add_one_of_ne_zero (Nat.ne_zero_of_lt hfuel)
      have hindex : ((front ++ [w]).length : Int) - 1 = (front.length : Nat) := by simp
      have hne : (front.length : Int) ≠ Direction.rightToLeft.stop (front ++ [w] ++ back).length := by
        simp only [Direction.stop]
        omega
      have hk : (front ++ [w] ++ back)[front.length]? = some w := by simp
      have hnext := ih (w :: back) (calls ++ w.2) (Nat.le_of_succ_le_succ hfuel)
      rw [hindex, sweepFrom_visit hne hk, Tour.record]
      simpa [Direction.stride, List.replicate_succ', Int.sub_eq_add_neg] using hnext

/-- The index goes through all children and stops: with fuel for them, or with
    more, the values are in the order of the children and the calls in the order of
    the visits. -/
theorem sweepFrom_eq (dir : Direction) (walks : List (β × List (Call β))) {fuel : Nat}
    (hfuel : walks.length ≤ fuel) :
    sweepFrom dir walks fuel (dir.first walks.length) (.blank walks.length)
      = ⟨walks.map fun w => some w.1, (dir.order walks).flatMap Prod.snd⟩ := by
  cases dir with
  | leftToRight =>
      have h := sweepFrom_leftToRight [] walks [] hfuel
      simpa [Direction.first, Direction.order, Tour.blank] using h
  | rightToLeft =>
      have h := sweepFrom_rightToLeft walks [] [] hfuel
      simpa [Direction.first, Direction.order, Tour.blank] using h

end Sweeping

/-! ## Values -/

variable {l : Listener β} {refusal : Refusal} {level : Nat} {n : Node}

mutual

/-- The value of a node at a level. -/
def value (l : Listener β) (refusal : Refusal) (level : Nat) : Node → β
  | .leaf id label value span => l.terminal (.leaf id label value span) ⟨level, -1⟩
  | .interior id label rule span [] => l.terminal (.interior id label rule span []) ⟨level, rule⟩
  | .interior id label rule span (c :: cs) =>
    let n := Node.interior id label rule span (c :: cs)
    l.leave n
      (if l.enter n ⟨level, rule⟩ || refusal = .ignored then
        valueEach l refusal (level + 1) (c :: cs)
      else List.replicate (c :: cs).length none) ⟨level, rule⟩

/-- The values of nodes side by side. -/
def valueEach (l : Listener β) (refusal : Refusal) (level : Nat) : List Node → List (Option β)
  | [] => []
  | n :: ns => some (value l refusal level n) :: valueEach l refusal level ns

end

/-- Whether the children of a node are visited. -/
def Listener.opens (l : Listener β) (refusal : Refusal) (n : Node) (place : Place) : Bool :=
  l.enter n place || refusal = .ignored

/-- What a node is left with: the values of its children in their order, or nothing
    for each child that is passed over. -/
def Listener.handed (l : Listener β) (refusal : Refusal) (n : Node) (place : Place) :
    List (Option β) :=
  if l.opens refusal n place then
    n.children.map fun c => some (value l refusal (place.level + 1) c)
  else List.replicate n.children.length none

theorem valueEach_eq (ns : List Node) :
    valueEach l refusal level ns = ns.map fun n => some (value l refusal level n) := by
  induction ns with
  | nil => rfl
  | cons n ns ih => rw [valueEach, ih, List.map_cons]

theorem value_childless (h : n.children = []) :
    value l refusal level n = l.terminal n ⟨level, n.rule⟩ := by
  cases n with
  | leaf id label value span => rfl
  | interior id label rule span children =>
      obtain rfl : children = [] := h
      rfl

/-- The value of a node with children is what the listener makes of the values it is
    handed. -/
theorem value_parent (h : n.children ≠ []) :
    value l refusal level n = l.leave n (l.handed refusal n ⟨level, n.rule⟩) ⟨level, n.rule⟩ := by
  cases n with
  | leaf id label value span => exact absurd rfl h
  | interior id label rule span children =>
      obtain ⟨c, cs, rfl⟩ := List.exists_cons_of_ne_nil (show children ≠ [] from h)
      rw [value, valueEach_eq]
      rfl

/-! ## The walk of a node and the walks of its children -/

variable {dir : Direction}

theorem walkEach_eq (ns : List Node) :
    walkEach l dir refusal level ns = ns.map (walkFrom l dir refusal level) := by
  induction ns with
  | nil => rfl
  | cons n ns ih => rw [walkEach, ih, List.map_cons]

/-- A node without children takes one call, that of a terminal. -/
theorem walkFrom_childless (h : n.children = []) :
    walkFrom l dir refusal level n
      = (l.terminal n ⟨level, n.rule⟩, [.terminal n ⟨level, n.rule⟩]) := by
  cases n with
  | leaf id label value span => rfl
  | interior id label rule span children =>
      obtain rfl : children = [] := h
      rfl

/-- What is known of the children when a node is left. -/
def tourBelow (l : Listener β) (dir : Direction) (refusal : Refusal) (level : Nat) (n : Node) :
    Tour β :=
  if l.opens refusal n ⟨level, n.rule⟩ then
    ⟨n.children.map fun c => some (walkFrom l dir refusal (level + 1) c).1,
      (dir.order n.children).flatMap fun c => (walkFrom l dir refusal (level + 1) c).2⟩
  else .blank n.children.length

/-- A node with children is entered and left, with the calls of the children between. -/
theorem walkFrom_parent (h : n.children ≠ []) :
    walkFrom l dir refusal level n
      = (l.leave n (tourBelow l dir refusal level n).values ⟨level, n.rule⟩,
          .enter n ⟨level, n.rule⟩ :: (tourBelow l dir refusal level n).calls
            ++ [.leave n (tourBelow l dir refusal level n).values ⟨level, n.rule⟩]) := by
  cases n with
  | leaf id label value span => exact absurd rfl h
  | interior id label rule span children =>
      obtain ⟨c, cs, rfl⟩ := List.exists_cons_of_ne_nil (show children ≠ [] from h)
      rw [walkFrom, walkEach_eq, sweep, sweepFrom_eq dir _ (Nat.le_refl _), dir.order_map,
        List.flatMap_map, List.map_map]
      rfl

/-- The direction does not matter for the values. -/
theorem values_tourBelow (hvalue : ∀ c ∈ n.children,
      (walkFrom l dir refusal (level + 1) c).1 = value l refusal (level + 1) c) :
    (tourBelow l dir refusal level n).values = l.handed refusal n ⟨level, n.rule⟩ := by
  rw [tourBelow, Listener.handed]
  split
  · exact List.map_congr_left fun c hc => congrArg some (hvalue c hc)
  · rfl

/-- A walk returns the value, in whichever direction it goes. -/
theorem walkFrom_value (n : Node) (level : Nat) :
    (walkFrom l dir refusal level n).1 = value l refusal level n := by
  induction n using Node.induct generalizing level with
  | childless n hn => rw [walkFrom_childless hn, value_childless hn]
  | parent n hn ih =>
      rw [walkFrom_parent hn, value_parent hn, values_tourBelow fun c hc => ih c hc (level + 1)]

/-- The calls for the nodes below a node. -/
def callsBelow (l : Listener β) (dir : Direction) (refusal : Refusal) (level : Nat) (n : Node) :
    List (Call β) :=
  if l.opens refusal n ⟨level, n.rule⟩ then
    (dir.order n.children).flatMap fun c => (walkFrom l dir refusal (level + 1) c).2
  else []

theorem calls_childless (h : n.children = []) :
    (walkFrom l dir refusal level n).2 = [.terminal n ⟨level, n.rule⟩] := by
  rw [walkFrom_childless h]

/-- A node is entered, then all below it is called, and it is left with the values
    of its children. -/
theorem calls_parent (h : n.children ≠ []) :
    (walkFrom l dir refusal level n).2
      = .enter n ⟨level, n.rule⟩ :: callsBelow l dir refusal level n
          ++ [.leave n (l.handed refusal n ⟨level, n.rule⟩) ⟨level, n.rule⟩] := by
  have hcalls : (tourBelow l dir refusal level n).calls = callsBelow l dir refusal level n := by
    rw [tourBelow, callsBelow]
    split <;> rfl
  rw [walkFrom_parent h, values_tourBelow fun c _ => walkFrom_value c (level + 1), hcalls]

/-- What is picked from the calls for a node. -/
theorem filterMap_calls {γ : Type} (f : Call β → Option γ) (h : n.children ≠ []) :
    (walkFrom l dir refusal level n).2.filterMap f
      = (f (.enter n ⟨level, n.rule⟩)).toList ++ (callsBelow l dir refusal level n).filterMap f
          ++ (f (.leave n (l.handed refusal n ⟨level, n.rule⟩) ⟨level, n.rule⟩)).toList := by
  have hone : ∀ call : Call β, [call].filterMap f = (f call).toList := by
    intro call
    cases hf : f call with
    | none => exact List.filterMap_cons_none hf
    | some x => exact List.filterMap_cons_some hf
  rw [calls_parent h, List.filterMap_append, hone, ← List.singleton_append, List.filterMap_append,
    hone]

/-! ## What is called -/

namespace Call

/-- The node that a call comes to, on the way down. -/
def visited? : Call β → Option (Node × Place)
  | .enter n place => some (n, place)
  | .leave .. => none
  | .terminal n place => some (n, place)

/-- The node that a call is done with, on the way up. -/
def finished? : Call β → Option (Node × Place)
  | .enter .. => none
  | .leave n _ place => some (n, place)
  | .terminal n place => some (n, place)

/-- The node of a terminal call. -/
def terminal? : Call β → Option Node
  | .terminal n _ => some n
  | _ => none

/-- Entering instead of leaving, and leaving instead of entering, with the values
    that a node is left with. -/
def exchanged (handed : Node → Place → List (Option β)) : Call β → Call β
  | .enter n place => .leave n (handed n place) place
  | .leave n _ place => .enter n place
  | .terminal n place => .terminal n place

end Call

/-- The values a listener is handed on leaving a node do not depend on the direction. -/
theorem handed_of_leave (n : Node) (level : Nat) :
    ∀ (m : Node) (values : List (Option β)) (place : Place),
      .leave m values place ∈ (walkFrom l dir refusal level n).2 →
        values = l.handed refusal m place := by
  induction n using Node.induct generalizing level with
  | childless n hn =>
      intro m values place hm
      rw [calls_childless hn] at hm
      cases List.mem_singleton.mp hm
  | parent n hn ih =>
      intro m values place hm
      rw [calls_parent hn, callsBelow] at hm
      rcases List.mem_append.mp hm with hm | hm
      · rcases List.mem_cons.mp hm with hm | hm
        · cases hm
        · split at hm
          · obtain ⟨c, hc, hm⟩ := List.mem_flatMap.mp hm
            exact ih c (Direction.mem_order.mp hc) (level + 1) m values place hm
          · cases hm
      · cases List.mem_singleton.mp hm
        rfl

/-- From the right, the calls are those from the left in reverse. -/
theorem calls_rightToLeft (n : Node) (level : Nat) :
    (walkFrom l .rightToLeft refusal level n).2
      = (walkFrom l .leftToRight refusal level n).2.reverse.map
          (Call.exchanged (l.handed refusal)) := by
  induction n using Node.induct generalizing level with
  | childless n hn =>
      rw [calls_childless hn, calls_childless hn]
      rfl
  | parent n hn ih =>
      have hbelow : callsBelow l .rightToLeft refusal level n
          = (callsBelow l .leftToRight refusal level n).reverse.map
              (Call.exchanged (l.handed refusal)) := by
        rw [callsBelow, callsBelow]
        split
        · simp only [Direction.order, List.reverse_flatMap, List.map_flatMap]
          refine List.flatMap_congr fun c hc => ?_
          exact ih c (List.mem_reverse.mp hc) (level + 1)
        · rfl
      rw [calls_parent hn, calls_parent hn, hbelow]
      simp [Call.exchanged]

/-! ## Which nodes are visited -/

/-- Whether a listener admits the way down to a node: the nodes above it, the nearest
    first, have not been refused. -/
def Listener.admits (l : Listener β) : List Node → Bool
  | [] => true
  | n :: above => l.enter n ⟨above.length, n.rule⟩ && l.admits above

/-- The nodes to visit below other nodes, with their places. -/
def visitsFrom (l : Listener β) (refusal : Refusal) (above : List Node) (n : Node) :
    List (Node × Place) :=
  ((n.lineages above).filter fun x => l.admits x.2 || refusal = .ignored).map
    fun x => (x.1, ⟨x.2.length, x.1.rule⟩)

/-- Whoever admits a node has admitted everything above it. -/
theorem Listener.admits_of_suffix {above as : List Node} (h : above <:+ as)
    (has : l.admits as = true) : l.admits above = true := by
  induction as with
  | nil =>
      rw [List.suffix_nil.mp h]
      rfl
  | cons a as ih =>
      rcases List.suffix_cons_iff.mp h with rfl | h
      · exact has
      · exact ih h (Bool.and_eq_true _ _ ▸ has).2

/-- Below a node that is not admitted, none is. -/
theorem visitsFrom_eq_nil {above : List Node} (h : (l.admits above || refusal = .ignored) = false)
    (n : Node) : visitsFrom l refusal above n = [] := by
  rw [visitsFrom, List.map_eq_nil_iff, List.filter_eq_nil_iff]
  intro x hx
  have hsuffix := n.suffix_of_mem_lineages above x hx
  rw [Bool.or_eq_false_iff] at h
  rw [h.2, Bool.or_false]
  intro hadmits
  rw [l.admits_of_suffix hsuffix hadmits] at h
  cases h.1

/-- A node that is reached is visited, then its children are, if the listener admits the
    node. -/
theorem visitsFrom_eq {above : List Node} (h : (l.admits above || refusal = .ignored) = true)
    (n : Node) :
    visitsFrom l refusal above n
      = (n, ⟨above.length, n.rule⟩) :: n.children.flatMap (visitsFrom l refusal (n :: above)) := by
  rw [visitsFrom, Node.lineages_eq, List.filter_cons, if_pos h, List.map_cons,
    List.filter_flatMap, List.map_flatMap]
  rfl

/-- Below an open node the way down is admitted as it was above. -/
theorem admits_cons (l : Listener β) (refusal : Refusal) (n : Node) (above : List Node) :
    (l.admits (n :: above) || refusal = .ignored)
      = (l.opens refusal n ⟨above.length, n.rule⟩ && (l.admits above || refusal = .ignored)) := by
  rw [Listener.admits, Listener.opens, Bool.or_and_distrib_right]

/-- From the left, the nodes to visit are visited in their order. -/
theorem visited_calls (n : Node) (above : List Node)
    (h : (l.admits above || refusal = .ignored) = true) :
    (walkFrom l .leftToRight refusal above.length n).2.filterMap Call.visited?
      = visitsFrom l refusal above n := by
  induction n using Node.induct generalizing above with
  | childless n hn =>
      rw [calls_childless hn, visitsFrom_eq h, hn]
      rfl
  | parent n hn ih =>
      have hbelow : (callsBelow l .leftToRight refusal above.length n).filterMap Call.visited?
          = n.children.flatMap (visitsFrom l refusal (n :: above)) := by
        -- the walk asks a node when it is there, the list asks all nodes above it
        have hcons := admits_cons l refusal n above
        rw [h, Bool.and_true] at hcons
        rw [callsBelow]
        split
        · rename_i hopens
          rw [Direction.order, List.filterMap_flatMap]
          exact List.flatMap_congr fun c hc => ih c hc (n :: above) (hcons.trans hopens)
        · rename_i hopens
          rw [Bool.not_eq_true] at hopens
          symm
          rw [List.filterMap_nil, List.flatMap_eq_nil_iff]
          exact fun c _ => visitsFrom_eq_nil (hcons.trans hopens) c
      rw [filterMap_calls _ hn, visitsFrom_eq h, hbelow]
      exact List.append_nil _

/-- Whatever the direction, the same nodes are visited, and those are finished. -/
theorem calls_perm {f : Call β → Option (Node × Place)}
    (hf : f = Call.visited? ∨ f = Call.finished?) (n : Node) (level : Nat) :
    ((walkFrom l dir refusal level n).2.filterMap f).Perm
      ((walkFrom l .leftToRight refusal level n).2.filterMap Call.visited?) := by
  induction n using Node.induct generalizing level with
  | childless n hn =>
      rw [calls_childless hn, calls_childless hn]
      rcases hf with rfl | rfl
      · exact List.Perm.refl _
      · exact List.Perm.refl _
  | parent n hn ih =>
      have hbelow : ((callsBelow l dir refusal level n).filterMap f).Perm
          ((callsBelow l .leftToRight refusal level n).filterMap Call.visited?) := by
        rw [callsBelow, callsBelow]
        split
        · rw [List.filterMap_flatMap, List.filterMap_flatMap]
          refine List.Perm.flatMap (dir.order_perm _) fun c hc => ?_
          exact ih c (Direction.mem_order.mp hc) (level + 1)
        · exact List.Perm.refl _
      -- a node is visited in front of what is below it and finished behind that
      rw [filterMap_calls _ hn, filterMap_calls _ hn]
      rcases hf with rfl | rfl
      · exact (hbelow.append_left _).append_right _
      · simpa [Call.visited?, Call.finished?] using
          (List.perm_append_singleton (n, (⟨level, n.rule⟩ : Place)) _).trans (hbelow.cons _)

/-- If refusals are ignored, the terminal calls are for the leaves. -/
theorem terminal_calls (n : Node) (level : Nat) :
    (walkFrom l .leftToRight .ignored level n).2.filterMap Call.terminal? = n.leaves := by
  induction n using Node.induct generalizing level with
  | childless n hn =>
      rw [calls_childless hn, Node.leaves_childless hn]
      rfl
  | parent n hn ih =>
      have hbelow : (callsBelow l .leftToRight .ignored level n).filterMap Call.terminal?
          = n.children.flatMap Node.leaves := by
        rw [callsBelow, if_pos (by simp [Listener.opens]), Direction.order, List.filterMap_flatMap]
        exact List.flatMap_congr fun c hc => ih c hc (level + 1)
      rw [filterMap_calls _ hn, Node.leaves_parent hn, hbelow]
      exact List.append_nil _

/-! ## The two directions -/

/-- What the walks of a tree have to do with each other and with the tree. -/
structure Mirrored (l : Listener β) (refusal : Refusal) (root : Node) : Prop where
  /-- Both directions give the same value. -/
  value_eq : (walk l .leftToRight refusal root).1 = (walk l .rightToLeft refusal root).1
  /-- In either direction, a node is left with the values of its children in the order in which
      they stand, or with no value for any of them if they are passed over. -/
  handed : ∀ (dir : Direction) (n : Node) (values : List (Option β)) (place : Place),
    .leave n values place ∈ (walk l dir refusal root).2 → values = l.handed refusal n place
  /-- From the right, the calls are those from the left in reverse, with entering and leaving
      exchanged. -/
  calls_eq : (walk l .rightToLeft refusal root).2
    = (walk l .leftToRight refusal root).2.reverse.map (Call.exchanged (l.handed refusal))
  /-- From the left, exactly the nodes are visited above which no node is refused, parents
      before their children. -/
  visited_eq : (walk l .leftToRight refusal root).2.filterMap Call.visited?
    = visitsFrom l refusal [] root
  /-- In either direction, these nodes are visited and finished once each. -/
  visited_perm : ∀ dir : Direction,
    ((walk l dir refusal root).2.filterMap Call.visited?).Perm (visitsFrom l refusal [] root) ∧
      ((walk l dir refusal root).2.filterMap Call.finished?).Perm (visitsFrom l refusal [] root)
  /-- If refusals are ignored, all nodes are visited, and the terminal calls are for the
      leaves. -/
  all_visited : refusal = .ignored →
    visitsFrom l refusal [] root
        = (root.lineages []).map (fun x => (x.1, ⟨x.2.length, x.1.rule⟩)) ∧
      (visitsFrom l refusal [] root).length = root.size ∧
      (walk l .leftToRight refusal root).2.filterMap Call.terminal? = root.leaves

/-- **Walking is symmetric.**  For every tree, every listener and either treatment of
    refusals, a walk from the right is a walk from the left read backwards. -/
theorem mirrored_walk (l : Listener β) (refusal : Refusal) (root : Node) :
    Mirrored l refusal root := by
  have hvisited : (walk l .leftToRight refusal root).2.filterMap Call.visited?
      = visitsFrom l refusal [] root := visited_calls root [] rfl
  refine
    { value_eq := (walkFrom_value root 0).trans (walkFrom_value root 0).symm
      handed := fun dir => handed_of_leave root 0
      calls_eq := calls_rightToLeft root 0
      visited_eq := hvisited
      visited_perm := fun dir => ?_
      all_visited := ?_ }
  · rw [← hvisited]
    exact ⟨calls_perm (Or.inl rfl) root 0, calls_perm (Or.inr rfl) root 0⟩
  · rintro rfl
    have hall : visitsFrom l .ignored [] root
        = (root.lineages []).map fun x => (x.1, ⟨x.2.length, x.1.rule⟩) := by
      rw [visitsFrom, List.filter_eq_self.mpr fun x _ => by simp]
    refine ⟨hall, ?_, terminal_calls root 0⟩
    rw [hall, List.length_map, Node.length_lineages]

end Tree

end ShiftReduce
