import ShiftReduce.Proofs.Automaton.Survey
import ShiftReduce.Proofs.Grammar.Derivation

/-! # Valid items — what a state knows about the path to it

    The items that are valid for a word of grammar symbols are given by three
    rules, without item sets: the start item is valid for the empty word, an
    item may be moved over the symbol that it expects, and an item that expects
    a nonterminal brings the rules of that nonterminal with it.  The automaton
    computes exactly this: the state that a word leads to from state 0 has the
    items that are valid for the word, and there is such a state as soon as
    there is a valid item.

    Valid items also explain why a state is worth reaching.  If every
    nonterminal derives a word, then every word of symbols with a valid item
    can be completed to a form that the grammar derives. -/

namespace ShiftReduce

namespace Item

/-- The items that are valid for a word of symbols. -/
inductive Valid (g : Grammar) : List Symbol → Item → Prop where
  | start : Valid g [] Item.start
  | shift {u : List Symbol} {i : Item} {x : Symbol} (h : Valid g u i)
      (hx : i.next? g = some x) : Valid g (u ++ [x]) ⟨i.rule, i.dot + 1⟩
  | close {u : List Symbol} {i : Item} {b : Symbol} {r : Production} (h : Valid g u i)
      (hb : i.next? g = some b) (hn : b ∈ g.nonterminals) (hr : r ∈ g.rules) (hlhs : r.lhs = b) :
      Valid g u ⟨r.id, 0⟩

/-- An item of a rule reads the symbol at its point. -/
theorem next?_of_rule {g : Grammar} {p : Int} {r : Production} (hr : g.rule? p = some r)
    (d : Nat) : next? g ⟨p, d⟩ = r.body[d]? := by
  rw [next?, hr]

namespace Valid

variable {g : Grammar} {s : Symbol} {u : List Symbol} {i : Item}

/-- A valid item belongs to a rule, and the symbols before its dot are the last
    ones of the word; before them the item with the dot in front is valid. -/
theorem split (hg : g.Planted s) (h : Valid g u i) :
    ∃ r, g.rule? i.rule = some r ∧ ∃ d : Nat, i.dot = d ∧ d ≤ r.body.length ∧
      ∃ v, u = v ++ r.body.take d ∧ Valid g v ⟨i.rule, 0⟩ := by
  induction h with
  | start => exact ⟨_, hg.rule?_zero, 0, rfl, Nat.zero_le _, [], rfl, .start⟩
  | shift h hx ih =>
      obtain ⟨r, hr, d, hd, -, v, rfl, hv⟩ := ih
      obtain ⟨r', hr', d', hd', hbody⟩ := next?_eq_some hx
      obtain rfl : r = r' := Option.some.inj (hr.symm.trans hr')
      obtain rfl : d = d' := by omega
      obtain ⟨hlt, -⟩ := List.getElem?_eq_some_iff.mp hbody
      refine ⟨r, hr, d + 1, by rw [hd]; rfl, hlt, v, ?_, hv⟩
      rw [List.take_add_one, hbody, List.append_assoc]
      rfl
  | close h hb hn hr hlhs ih =>
      exact ⟨_, hg.rule?_id hr, 0, rfl, Nat.zero_le _, _, (List.append_nil _).symm,
        .close h hb hn hr hlhs⟩

/-- An item with the dot in front is the start item, or another valid item
    expects the left side of its rule. -/
theorem expected (hg : g.Planted s) (h : Valid g u i) (hdot : i.dot = 0) :
    (i = Item.start ∧ u = []) ∨
      ∃ r ∈ g.rules, i.rule = r.id ∧ ∃ j, Valid g u j ∧ j.next? g = some r.lhs := by
  cases h with
  | start => exact Or.inl ⟨rfl, rfl⟩
  | shift h hx =>
      obtain ⟨r, hr, d, hd, -⟩ := h.split hg
      exact absurd hdot (by show _ + 1 ≠ (0 : Int); omega)
  | close h hb hn hr hlhs => exact Or.inr ⟨_, hr, rfl, _, h, by rw [hlhs]; exact hb⟩

/-- Rule 0 is begun only at the very beginning. -/
theorem of_root (hg : g.Rooted s) (h : Valid g u ⟨0, 0⟩) : u = [] := by
  rcases h.expected hg.planted rfl with ⟨-, hu⟩ | ⟨r, hr, hid, j, hj, hnext⟩
  · exact hu
  · -- the start symbol would stand in a body
    obtain ⟨q, hq, d, -, hbody⟩ := next?_eq_some hnext
    have hroot : r = { id := 0, lhs := g.start, body := [s] } := by
      have h0 := hg.rule?_id hr
      rw [← show (0 : Int) = r.id from hid] at h0
      exact Option.some.inj (h0.symm.trans hg.rule?_zero)
    rw [hroot] at hbody
    exact absurd (List.mem_of_getElem? hbody) (hg.start_unused q (Grammar.mem_of_rule? hq))

/-- Before a completed item stands the whole body of its rule. -/
theorem complete (hg : g.Rooted s) (h : Valid g u i) {r : Production}
    (hr : g.rule? i.rule = some r) (hnext : i.next? g = none) :
    ∃ v, u = v ++ r.body ∧ Valid g v ⟨r.id, 0⟩ := by
  obtain ⟨r', hr', d, hd, hle, v, hu, hv⟩ := h.split hg.planted
  obtain rfl : r = r' := Option.some.inj (hr.symm.trans hr')
  have hend : r.body.length ≤ d := by
    obtain ⟨p, e⟩ := i
    obtain rfl : e = d := hd
    rw [next?_of_rule hr] at hnext
    exact List.getElem?_eq_none_iff.mp hnext
  refine ⟨v, ?_, ?_⟩
  · rw [hu, List.take_of_length_le hend]
  · rw [hg.id_of_rule? hr]
    exact hv

/-- From a rule with the dot in front, the dot moves over the whole body. -/
theorem move_over {r : Production} (hr : g.rule? r.id = some r) (h : Valid g u ⟨r.id, 0⟩) :
    ∀ d : Nat, d ≤ r.body.length → Valid g (u ++ r.body.take d) ⟨r.id, d⟩ := by
  intro d
  induction d with
  | zero =>
      intro _
      rw [List.take_zero, List.append_nil]
      exact h
  | succ d ih =>
      intro hd
      have hlt : d < r.body.length := hd
      have hget : r.body[d]? = some r.body[d] := List.getElem?_eq_getElem hlt
      have hstep := (ih (by omega)).shift ((next?_of_rule hr d).trans hget)
      rw [List.append_assoc] at hstep
      rw [List.take_add_one, hget]
      exact hstep

/-- A word with a valid item, the rest of the rule of the item and some word of
    terminals make up a form that the grammar derives. -/
theorem exists_completion (hg : g.Rooted s) (hp : g.Productive) (h : Valid g u i) :
    ∀ r, g.rule? i.rule = some r → ∀ d : Nat, i.dot = d →
      ∃ z, g.IsWord z ∧ g.Derives [s] (u ++ r.body.drop d ++ z) := by
  induction h with
  | start =>
      intro r hr d hd
      obtain rfl := Option.some.inj (hg.rule?_zero.symm.trans hr)
      obtain rfl : d = 0 := by
        have : (0 : Int) = d := hd
        omega
      exact ⟨[], (fun x hx => nomatch hx), Grammar.Derives.refl _⟩
  | shift h hx ih =>
      intro r hr d hd
      obtain ⟨r', hr', d', hd', hbody⟩ := next?_eq_some hx
      obtain rfl : r = r' := Option.some.inj (hr.symm.trans hr')
      obtain ⟨z, hz, hder⟩ := ih r hr d' hd'
      obtain rfl : d = d' + 1 := by
        have : _ + 1 = (d : Int) := hd
        omega
      obtain ⟨hlt, hget⟩ := List.getElem?_eq_some_iff.mp hbody
      refine ⟨z, hz, ?_⟩
      rw [List.drop_eq_getElem_cons hlt, hget] at hder
      simpa only [List.append_assoc, List.cons_append, List.nil_append] using hder
  | @close v j b r h hb hn hr hlhs ih =>
      intro r' hr' d hd
      obtain rfl := Option.some.inj ((hg.rule?_id hr).symm.trans hr')
      obtain rfl : d = 0 := by
        have : (0 : Int) = d := hd
        omega
      obtain ⟨q, hq, e, he, hbody⟩ := next?_eq_some hb
      obtain ⟨z, hz, hder⟩ := ih q hq e he
      obtain ⟨hlt, hget⟩ := List.getElem?_eq_some_iff.mp hbody
      rw [List.drop_eq_getElem_cons hlt, hget, ← hlhs] at hder
      -- what is left of the outer rule derives a word of its own
      obtain ⟨y, hy, hyw⟩ := hp.exists_word (q.body.drop (e + 1)) fun x hx =>
        hg.body_mem q (Grammar.mem_of_rule? hq) x (List.mem_of_mem_drop hx)
      refine ⟨y ++ z, hyw.append hz, ?_⟩
      have hinner := ((Grammar.Derives.of_rule hr).append hy).inside v z
      refine hder.trans ?_
      simpa only [List.append_assoc, List.cons_append, List.nil_append, List.singleton_append,
        List.drop_zero] using hinner

/-- If every symbol derives a word, what has been read can be completed to a
    sentence. -/
theorem exists_word_behind (hg : g.Rooted s) (hp : g.Productive) (h : Valid g u i) :
    ∃ z, g.IsWord z ∧ g.Derives [s] (u ++ z) := by
  obtain ⟨r, hr, d, hd, -⟩ := h.split hg.planted
  obtain ⟨z, hz, hder⟩ := h.exists_completion hg hp r hr d hd
  obtain ⟨y, hy, hyw⟩ := hp.exists_word (r.body.drop d) fun x hx =>
    hg.body_mem r (Grammar.mem_of_rule? hr) x (List.mem_of_mem_drop hx)
  refine ⟨y ++ z, hyw.append hz, hder.trans ?_⟩
  simpa only [List.append_assoc] using hy.inside u z

end Valid

end Item

namespace Automaton

/-- The state that a symbol leads to from a state. -/
def goto? (a : Automaton) (k : Nat) (x : Symbol) : Option Nat :=
  a.states[k]?.bind fun s => s.goto? x

/-- What leads on is a transition of the state. -/
theorem exists_transition {a : Automaton} {k l : Nat} {x : Symbol} (h : a.goto? k x = some l) :
    ∃ st, a.states[k]? = some st ∧ (x, l) ∈ st.transitions := by
  obtain ⟨st, hst, hlookup⟩ := Option.bind_eq_some_iff.mp h
  obtain ⟨before, behind, heq, -⟩ := List.lookup_eq_some_iff.mp hlookup
  exact ⟨st, hst, by rw [heq]; simp⟩

/-- The state that a word of symbols leads to from a state. -/
def walk? (a : Automaton) : Nat → List Symbol → Option Nat
  | k, [] => some k
  | k, x :: xs => (a.goto? k x).bind fun j => a.walk? j xs

/-- A walk over two words is one walk behind the other. -/
theorem walk?_append (a : Automaton) (k : Nat) (u v : List Symbol) :
    a.walk? k (u ++ v) = (a.walk? k u).bind fun j => a.walk? j v := by
  induction u generalizing k with
  | nil => rfl
  | cons x u ih =>
      rw [List.cons_append, walk?, walk?]
      cases a.goto? k x with
      | none => rfl
      | some j => exact ih j

/-- A walk over one more symbol ends with its transition. -/
theorem walk?_snoc (a : Automaton) (k : Nat) (u : List Symbol) (x : Symbol) :
    a.walk? k (u ++ [x]) = (a.walk? k u).bind fun j => a.goto? j x := by
  rw [walk?_append]
  cases a.walk? k u with
  | none => rfl
  | some j =>
      show (a.goto? j x).bind (fun i => some i) = a.goto? j x
      cases a.goto? j x with
      | none => rfl
      | some i => rfl

variable {g : Grammar} {s : Symbol}

/-- A checked grammar with a rule 0 in whose automaton all dots are words. -/
structure Charted (g : Grammar) : Prop extends g.Checked where
  rule_zero : (g.rule? 0).isSome = true
  bounded : Item.Bounded g (build g).size

/-- A rooted grammar in whose automaton all dots are words. -/
structure Surveyed (g : Grammar) (s : Symbol) : Prop extends g.Rooted s, Charted g

/-- The parts of a state by its number. -/
theorem getElem?_states {k : Nat} {st : State} :
    (build g).states[k]? = some st ↔
      st.id = k ∧ (survey g).sets[k]? = some st.items ∧ (survey g).rows[k]? = some st.transitions := by
  show (((survey g).sets.zip (survey g).rows).mapIdx _)[k]? = some st ↔ _
  rw [List.getElem?_mapIdx, Option.map_eq_some_iff]
  constructor
  · rintro ⟨⟨items, row⟩, hzip, rfl⟩
    obtain ⟨hitems, hrow⟩ := List.getElem?_zip_eq_some.mp hzip
    exact ⟨rfl, hitems, hrow⟩
  · rintro ⟨rfl, hitems, hrow⟩
    exact ⟨(st.items, st.transitions), List.getElem?_zip_eq_some.mpr ⟨hitems, hrow⟩, rfl⟩

namespace Charted

/-- Every set has its row, and is a state of the automaton. -/
theorem rows_length (h : Charted g) : (survey g).rows.length = (survey g).sets.length ∧
    (survey g).rows.length = (build g).size := by
  obtain ⟨hsound, hfull⟩ := survey_sound h.toChecked h.rule_zero
  have hsize : (build g).size = (survey g).rows.length := by
    show (((survey g).sets.zip (survey g).rows).mapIdx _).length = _
    rw [List.length_mapIdx, List.length_zip, Nat.min_eq_right hsound.rows_le]
  exact ⟨hfull (by rw [← hsize]; exact h.bounded), hsize.symm⟩

/-- Behind the last state there are no sets and no rows. -/
theorem getElem?_eq_none (h : Charted g) {k : Nat} (hout : (build g).states[k]? = none) :
    (survey g).sets[k]? = none ∧ (survey g).rows[k]? = none := by
  have hrows : (survey g).rows.length ≤ k := by
    rw [h.rows_length.2]
    exact List.getElem?_eq_none_iff.mp hout
  exact ⟨List.getElem?_eq_none (by rw [← h.rows_length.1]; exact hrows), List.getElem?_eq_none hrows⟩

/-- A charted automaton comes from a sound survey. -/
theorem sound (h : Charted g) : (survey g).Sound g :=
  (survey_sound h.toChecked h.rule_zero).1

/-- Every set of the survey is a state. -/
theorem exists_state (h : Charted g) {k : Nat} {t : ItemSet}
    (ht : (survey g).sets[k]? = some t) : ∃ st, (build g).states[k]? = some st ∧ st.items = t := by
  obtain ⟨hlt, -⟩ := List.getElem?_eq_some_iff.mp ht
  have hrow := List.getElem?_eq_getElem (l := (survey g).rows) (i := k) (by
    rw [h.rows_length.1]
    exact hlt)
  exact ⟨⟨k, t, _⟩, getElem?_states.mpr ⟨rfl, ht, hrow⟩, rfl⟩

/-- The dots of a state are at most at the position that is its number, and words
    there. -/
theorem known (h : Charted g) {k : Nat} {st : State}
    (hst : (build g).states[k]? = some st) {i : Item} (hi : i ∈ st.items) :
    i.Known g k ∧ Item.Bounded g (k + 1) := by
  obtain ⟨hlt, -⟩ := List.getElem?_eq_some_iff.mp hst
  have hnext : Item.Bounded g (k + 1) := h.bounded.anti hlt
  exact ⟨h.sound.orderly.known k st.items (getElem?_states.mp hst).2.1
    (hnext.anti (Nat.le_succ k)) i hi, hnext⟩

/-- A transition leads to the state that has the moved items. -/
theorem target (h : Charted g) {k t : Nat} {st : State} {x : Symbol}
    (hst : (build g).states[k]? = some st) (he : (x, t) ∈ st.transitions) :
    x ∈ g.symbols ∧ ItemSet.move g st.items x ≠ [] ∧
      ∃ st', (build g).states[t]? = some st' ∧ ∀ i, i ∈ st'.items ↔ i ∈ ItemSet.move g st.items x := by
  obtain ⟨-, hitems, hrow⟩ := getElem?_states.mp hst
  obtain ⟨hx, hne, set, hset, hmem⟩ := (h.sound.fits k _ _ hrow hitems).1 (x, t) he
  obtain ⟨st', hst', rfl⟩ := h.exists_state hset
  exact ⟨hx, hne, st', hst', hmem⟩

/-- States with the same items are one state. -/
theorem state_unique (h : Charted g) {k l : Nat} {st st' : State}
    (hst : (build g).states[k]? = some st) (hst' : (build g).states[l]? = some st')
    (hsame : ∀ i, i ∈ st.items ↔ i ∈ st'.items) : k = l := by
  have hdistinct : ∀ {k l : Nat} {a b : ItemSet}, (survey g).sets[k]? = some a →
      (survey g).sets[l]? = some b → (∀ i, i ∈ a ↔ i ∈ b) → ¬ k < l := by
    intro k l a b ha hb hab hkl
    obtain ⟨hk, rfl⟩ := List.getElem?_eq_some_iff.mp ha
    obtain ⟨hl, rfl⟩ := List.getElem?_eq_some_iff.mp hb
    have hfalse := List.pairwise_iff_getElem.mp h.sound.orderly.distinct k l hk hl hkl
    rw [(ItemSet.same_iff (h.sound.orderly.nodup _ (List.getElem_mem hk))
      (h.sound.orderly.nodup _ (List.getElem_mem hl))).mpr hab] at hfalse
    exact nomatch hfalse
  have hk := (getElem?_states.mp hst).2.1
  have hl := (getElem?_states.mp hst').2.1
  have h₁ := hdistinct hk hl hsame
  have h₂ := hdistinct hl hk fun i => (hsame i).symm
  omega

/-- A state has at most one transition on a symbol. -/
theorem transition_unique (h : Charted g) {k t t' : Nat} {st : State} {x : Symbol}
    (hst : (build g).states[k]? = some st) (he : (x, t) ∈ st.transitions)
    (he' : (x, t') ∈ st.transitions) : t = t' := by
  obtain ⟨-, -, a, ha, hmem⟩ := h.target hst he
  obtain ⟨-, -, b, hb, hmem'⟩ := h.target hst he'
  exact h.state_unique ha hb fun i => (hmem i).trans (hmem' i).symm

/-- A transition on a symbol is there because an item expects the symbol. -/
theorem exists_expecting (h : Charted g) {k t : Nat} {st : State} {x : Symbol}
    (hst : (build g).states[k]? = some st) (he : (x, t) ∈ st.transitions) :
    ∃ i ∈ st.items, i.next? g = some x := by
  obtain ⟨hx, hne, -⟩ := h.target hst he
  exact (ItemSet.move_ne_nil (symbols_ne_empty h.toChecked x hx).2).mp hne

/-- A transition that is looked up is on the list of its state. -/
theorem goto?_eq_some_iff (h : Charted g) {k t : Nat} {x : Symbol} :
    (build g).goto? k x = some t ↔
      ∃ st, (build g).states[k]? = some st ∧ (x, t) ∈ st.transitions := by
  constructor
  · exact exists_transition
  · rintro ⟨st, hst, he⟩
    refine Option.bind_eq_some_iff.mpr ⟨st, hst, ?_⟩
    cases hlookup : st.goto? x with
    | none =>
        have hnone := List.lookup_eq_none_iff.mp hlookup (x, t) he
        simp at hnone
    | some t' =>
        obtain ⟨l₁, l₂, heq, -⟩ := List.lookup_eq_some_iff.mp hlookup
        have he' : (x, t') ∈ st.transitions := by
          rw [heq]
          simp
        rw [h.transition_unique hst he he']

/-- State 0 has the items that are valid for the empty word. -/
theorem exists_start (h : Charted g) :
    ∃ st, (build g).states[0]? = some st ∧ st.items = ItemSet.closure g [Item.start] :=
  h.exists_state h.sound.start

/-- Every word that leads to a state leads to one with exactly the items that
    are valid for the word. -/
theorem mem_items_iff (h : Charted g) {u : List Symbol} : ∀ {k : Nat} {st : State},
    (build g).walk? 0 u = some k → (build g).states[k]? = some st →
      ∀ i, i ∈ st.items ↔ i.Valid g u := by
  induction u using List.reverseRecOn with
  | nil =>
      intro k st hwalk hst i
      obtain rfl : 0 = k := Option.some.inj hwalk
      obtain ⟨st', hst', hitems⟩ := h.exists_start
      obtain rfl : st = st' := Option.some.inj (hst.symm.trans hst')
      rw [hitems]
      constructor
      · refine ItemSet.closure_induct (P := fun i => i.Valid g []) ?_ ?_ i
        · intro j hj
          rw [List.mem_singleton.mp hj]
          exact .start
        · intro j hj j' hj'
          obtain ⟨b, hb, hn, r, hr, hlhs, rfl⟩ := Item.mem_demands.mp hj'
          exact hj.close hb hn hr hlhs
      · intro hvalid
        generalize hu : ([] : List Symbol) = u at hvalid
        induction hvalid with
        | start => exact ItemSet.mem_closure_of_mem List.mem_cons_self
        | shift _ _ _ => simp at hu
        | close _ hb hn hr hlhs ih =>
            exact (ItemSet.closure_closed g _).2 _ (ih hu) _
              (Item.mem_demands.mpr ⟨_, hb, hn, _, hr, hlhs, rfl⟩)
  | append_singleton u x ih =>
      intro k st hwalk hst i
      rw [walk?_snoc, Option.bind_eq_some_iff] at hwalk
      obtain ⟨j, hj, hgoto⟩ := hwalk
      obtain ⟨sj, hsj, he⟩ := h.goto?_eq_some_iff.mp hgoto
      obtain ⟨hx, -, st', hst', hmem⟩ := h.target hsj he
      obtain rfl : st = st' := Option.some.inj (hst.symm.trans hst')
      have hne := (symbols_ne_empty h.toChecked x hx).2
      have hitems := ih hj hsj
      -- the items that are moved are valid by the induction hypothesis
      have hmoved : ∀ l ∈ sj.items, l.next? g = some x → l.advance = ⟨l.rule, l.dot + 1⟩ := by
        intro l hl hnext
        obtain ⟨hknown, hbound⟩ := h.known hsj hl
        exact (hknown.advance hbound hnext).1
      rw [hmem i]
      constructor
      · refine ItemSet.closure_induct (P := fun i => i.Valid g (u ++ [x])) ?_ ?_ i
        · intro l hl
          obtain ⟨l', hl', hnext, rfl⟩ := (ItemSet.mem_advanced hne).mp hl
          rw [hmoved l' hl' hnext]
          exact ((hitems l').mp hl').shift hnext
        · intro l hl l' hl'
          obtain ⟨b, hb, hn, r, hr, hlhs, rfl⟩ := Item.mem_demands.mp hl'
          exact hl.close hb hn hr hlhs
      · intro hvalid
        generalize hw : u ++ [x] = w at hvalid
        induction hvalid with
        | start => simp at hw
        | @shift v l y hl hnext _ =>
            obtain ⟨rfl, hxy⟩ := List.append_inj' hw rfl
            obtain rfl : x = y := List.head_eq_of_cons_eq hxy
            have hl' := (hitems l).mpr hl
            refine ItemSet.mem_closure_of_mem ((ItemSet.mem_advanced hne).mpr ⟨l, hl', hnext, ?_⟩)
            exact (hmoved l hl' hnext).symm
        | close _ hb hn hr hlhs ih' =>
            exact (ItemSet.closure_closed g _).2 _ (ih' hw) _
              (Item.mem_demands.mpr ⟨_, hb, hn, _, hr, hlhs, rfl⟩)

/-- A word with a valid item leads to a state. -/
theorem exists_walk (h : Charted g) {u : List Symbol} {i : Item} (hi : i.Valid g u) :
    ∃ k st, (build g).walk? 0 u = some k ∧ (build g).states[k]? = some st ∧ i ∈ st.items := by
  induction hi with
  | start =>
      obtain ⟨st, hst, hitems⟩ := h.exists_start
      exact ⟨0, st, rfl, hst, by rw [hitems]; exact ItemSet.mem_closure_of_mem List.mem_cons_self⟩
  | @shift u j x hj hx ih =>
      obtain ⟨k, st, hwalk, hst, hmem⟩ := ih
      obtain ⟨-, hitems, hrow⟩ := getElem?_states.mp hst
      obtain ⟨r, hr, d, -, hbody⟩ := Item.next?_eq_some hx
      have hdecl := h.body_mem r (Grammar.mem_of_rule? hr) x (List.mem_of_getElem? hbody)
      have hmove := (ItemSet.move_ne_nil (h.ne_of_mem hdecl).2.2).mpr ⟨j, hmem, hx⟩
      obtain ⟨t, ht⟩ := (h.sound.fits k _ _ hrow hitems).2 x (mem_symbols h.toChecked hdecl) hmove
      obtain ⟨-, -, st', hst', -⟩ := h.target hst ht
      have hwalk' : (build g).walk? 0 (u ++ [x]) = some t := by
        rw [walk?_snoc, hwalk]
        exact h.goto?_eq_some_iff.mpr ⟨st, hst, ht⟩
      exact ⟨t, st', hwalk', hst', (h.mem_items_iff hwalk' hst' _).mpr (hj.shift hx)⟩
  | close hj hb hn hr hlhs ih =>
      obtain ⟨k, st, hwalk, hst, -⟩ := ih
      exact ⟨k, st, hwalk, hst, (h.mem_items_iff hwalk hst _).mpr (hj.close hb hn hr hlhs)⟩

/-- There is a transition on a symbol that a valid item expects. -/
theorem exists_goto (h : Charted g) {u : List Symbol} {i : Item} {x : Symbol}
    (hi : i.Valid g u) (hx : i.next? g = some x) :
    ∃ k l, (build g).walk? 0 u = some k ∧ (build g).goto? k x = some l := by
  obtain ⟨l, -, hwalk, -⟩ := h.exists_walk (hi.shift hx)
  rw [walk?_snoc, Option.bind_eq_some_iff] at hwalk
  obtain ⟨k, hk, hgoto⟩ := hwalk
  exact ⟨k, l, hk, hgoto⟩

/-- A word leads to a state only if it has a valid item. -/
theorem exists_valid (h : Charted g) {u : List Symbol} {k : Nat}
    (hwalk : (build g).walk? 0 u = some k) :
    ∃ st, (build g).states[k]? = some st ∧ ∃ i : Item, i.Valid g u := by
  induction u using List.reverseRecOn generalizing k with
  | nil =>
      obtain rfl : 0 = k := Option.some.inj hwalk
      obtain ⟨st, hst, -⟩ := h.exists_start
      exact ⟨st, hst, Item.start, .start⟩
  | append_singleton u x ih =>
      have hsnoc := hwalk
      rw [walk?_snoc, Option.bind_eq_some_iff] at hsnoc
      obtain ⟨j, hj, hgoto⟩ := hsnoc
      obtain ⟨sj, hsj, he⟩ := h.goto?_eq_some_iff.mp hgoto
      obtain ⟨-, hne, st, hst, hmem⟩ := h.target hsj he
      obtain ⟨i, hi⟩ := List.exists_mem_of_ne_nil _ hne
      exact ⟨st, hst, i, (h.mem_items_iff hwalk hst i).mp ((hmem i).mpr hi)⟩

/-- Where a rule was begun there is a transition on its left side. -/
theorem exists_goto_lhs (h : Charted g) (hg : g.Planted s) {u : List Symbol} {r : Production}
    (hr : r ∈ g.rules) (hlhs : r.lhs ≠ g.start) (hi : Item.Valid g u ⟨r.id, 0⟩) :
    ∃ k l, (build g).walk? 0 u = some k ∧ (build g).goto? k r.lhs = some l := by
  rcases hi.expected hg rfl with ⟨hstart, -⟩ | ⟨q, hq, hid, j, hj, hnext⟩
  · have hroot := h.rule?_id hr
    rw [show r.id = 0 from congrArg Item.rule hstart, hg.rule?_zero] at hroot
    exact absurd (congrArg Production.lhs (Option.some.inj hroot)).symm hlhs
  · obtain rfl : r = q := by
      have hq' := h.rule?_id hq
      rw [← show r.id = q.id from hid, h.rule?_id hr] at hq'
      exact Option.some.inj hq'
    exact h.exists_goto hj hnext

end Charted

namespace Surveyed

/-- Where there is a transition on the left side of a rule, the rule can be
    begun and completed. -/
theorem valid_of_goto_lhs (h : Surveyed g s) {u : List Symbol} {k l : Nat} {r : Production}
    (hr : r ∈ g.rules) (hwalk : (build g).walk? 0 u = some k)
    (hgoto : (build g).goto? k r.lhs = some l) :
    r.lhs ≠ g.start ∧ Item.Valid g (u ++ r.body) ⟨r.id, r.body.length⟩ := by
  obtain ⟨st, hst, he⟩ := h.goto?_eq_some_iff.mp hgoto
  obtain ⟨i, hi, hnext⟩ := h.exists_expecting hst he
  constructor
  · -- the left side stands in a body
    obtain ⟨q, hq, d, -, hbody⟩ := Item.next?_eq_some hnext
    intro heq
    rw [heq] at hbody
    exact h.start_unused q (Grammar.mem_of_rule? hq) (List.mem_of_getElem? hbody)
  · have hbegun : Item.Valid g u ⟨r.id, 0⟩ :=
      ((h.mem_items_iff hwalk hst i).mp hi).close hnext (h.lhs_mem r hr) hr rfl
    have hdone := hbegun.move_over (h.rule?_id hr) r.body.length (Nat.le_refl _)
    rw [List.take_length] at hdone
    exact hdone

end Surveyed

end Automaton

end ShiftReduce
