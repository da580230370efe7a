import Mathlib.Data.Finset.Card
import Mathlib.Order.Interval.Finset.Nat
import ShiftReduce.Proofs.Automaton.Canonical
import ShiftReduce.Proofs.Grammar.Renumbering

/-! # Renumbering and the automaton — another order of states, the same moves

    The order of rules decides in which order the symbols are tried, and so how
    the states are numbered.  The automata are the same but for that: two words
    lead to the same state of one if and only if they do of the other, since the
    items that are valid for a word are the same up to the rule numbers
    (`walk?_eq_iff`).  So a state corresponds to the state that the same words lead
    to. -/

namespace ShiftReduce

/-! ## Items -/

namespace Item

/-- The item with another rule number. -/
def renumbered (number : Int → Int) (i : Item) : Item :=
  { i with rule := number i.rule }

open Grammar

variable {number : Int → Int} {g g' : Grammar} {s : Symbol} {u v : List Symbol} {i j : Item}

/-- An item under its new number reads the same symbol next. -/
theorem next?_renumbered (h : Renumbers number g g') (hg : g.Checked) (hg' : g'.Checked)
    {r : Production} (hr : g.rule? i.rule = some r) :
    (i.renumbered number).next? g' = i.next? g := by
  have hr' : g'.rule? (i.renumbered number).rule = some (r.renumbered number) :=
    h.rule?_number hg hg' hr
  obtain ⟨p, d⟩ := i
  rw [next?, next?, hr, hr']
  cases d <;> rfl

/-- A valid item is one of a rule. -/
theorem Valid.exists_rule (hg : g.Rooted s) (h : Valid g u i) : ∃ r, g.rule? i.rule = some r := by
  obtain ⟨r, hr, -⟩ := h.split hg.planted
  exact ⟨r, hr⟩

/-- A valid item stays valid under its new number. -/
theorem Valid.renumbered (h : Renumbers number g g') (hzero : number 0 = 0) (hg : g.Checked)
    (hg' : g'.Checked) (hi : Valid g u i) : Valid g' u (i.renumbered number) := by
  induction hi with
  | start =>
      have hstart : Item.start.renumbered number = Item.start := by
        rw [Item.renumbered, Item.start, hzero]
      rw [hstart]
      exact .start
  | shift _ hx ih =>
      obtain ⟨r, hr, -⟩ := next?_eq_some hx
      exact ih.shift ((next?_renumbered h hg hg' hr).trans hx)
  | close _ hb hn hr hlhs ih =>
      obtain ⟨q, hq, -⟩ := next?_eq_some hb
      exact ih.close ((next?_renumbered h hg hg' hq).trans hb) (h.nonterminals ▸ hn)
        (h.mem_of_mem hr) hlhs

/-- Nothing else is valid in the renumbered grammar. -/
theorem Valid.exists_renumbered (h : Renumbers number g g') (hzero : number 0 = 0)
    (hg : g.Rooted s) (hg' : g'.Checked) (hj : Valid g' u j) :
    ∃ i, Valid g u i ∧ i.renumbered number = j := by
  induction hj with
  | start => exact ⟨Item.start, .start, by rw [Item.renumbered, Item.start, hzero]⟩
  | shift _ hx ih =>
      obtain ⟨i, hi, rfl⟩ := ih
      obtain ⟨r, hr⟩ := hi.exists_rule hg
      rw [next?_renumbered h hg.toChecked hg' hr] at hx
      exact ⟨_, hi.shift hx, rfl⟩
  | close _ hb hn hr hlhs ih =>
      obtain ⟨i, hi, rfl⟩ := ih
      obtain ⟨q, hq⟩ := hi.exists_rule hg
      rw [next?_renumbered h hg.toChecked hg' hq] at hb
      obtain ⟨r, hmem, rfl⟩ := (h.mem_rules _).mp hr
      exact ⟨⟨r.id, 0⟩, hi.close hb (h.nonterminals ▸ hn) hmem hlhs, rfl⟩

/-- Exactly the items under new numbers are valid in the other grammar. -/
theorem Valid.renumbered_iff (h : Renumbers number g g') (hzero : number 0 = 0) (hg : g.Rooted s)
    (hg' : g'.Checked) : Valid g' u j ↔ ∃ i, Valid g u i ∧ i.renumbered number = j := by
  constructor
  · exact fun hj => hj.exists_renumbered h hzero hg hg'
  · rintro ⟨i, hi, rfl⟩
    exact hi.renumbered h hzero hg.toChecked hg'

/-- Valid items keep apart under their new numbers. -/
theorem Valid.renumbered_inj (h : Renumbers number g g') (hg : g.Rooted s) (hi : Valid g u i)
    (hj : Valid g v j) (heq : i.renumbered number = j.renumbered number) : i = j := by
  obtain ⟨r, hr⟩ := hi.exists_rule hg
  obtain ⟨q, hq⟩ := hj.exists_rule hg
  obtain ⟨hrule, hdot⟩ := Item.mk.inj heq
  have hsame := h.number_inj hg.toChecked hr hq hrule
  obtain ⟨p, d⟩ := i
  obtain ⟨p', d'⟩ := j
  rw [show p = p' from hsame, show d = d' from hdot]

/-- The same items are valid for two words before and after renumbering. -/
theorem Valid.same_iff (h : Renumbers number g g') (hzero : number 0 = 0) (hg : g.Rooted s)
    (hg' : g'.Checked) :
    (∀ j, Valid g' u j ↔ Valid g' v j) ↔ ∀ i, Valid g u i ↔ Valid g v i := by
  constructor
  · intro hsame i
    constructor
    · intro hi
      obtain ⟨j, hj, heq⟩ := ((hsame _).mp (hi.renumbered h hzero hg.toChecked hg')).exists_renumbered
        h hzero hg hg'
      rwa [hi.renumbered_inj h hg hj heq.symm]
    · intro hi
      obtain ⟨j, hj, heq⟩ := ((hsame _).mpr (hi.renumbered h hzero hg.toChecked hg')).exists_renumbered
        h hzero hg hg'
      rwa [hi.renumbered_inj h hg hj heq.symm]
  · intro hsame j
    rw [renumbered_iff h hzero hg hg', renumbered_iff h hzero hg hg']
    simp only [hsame]

end Item

/-! ## States -/

namespace Automaton

/-- A state whose items have new rule numbers and whose moves lead to the states
    that correspond. -/
structure State.Matches (number : Int → Int) (σ : Nat → Nat) (st st' : State) : Prop where
  items : ∀ j, j ∈ st'.items ↔ ∃ i ∈ st.items, i.renumbered number = j
  transitions : ∀ x l, (x, l) ∈ st'.transitions ↔ ∃ m, (x, m) ∈ st.transitions ∧ σ m = l
  accepts : st'.accepts = st.accepts

/-- Automata whose states correspond one to one, the first ones to each other. -/
structure Isomorphic (number : Int → Int) (σ : Nat → Nat) (a a' : Automaton) : Prop where
  bijOn : Set.BijOn σ (Set.Iio a.size) (Set.Iio a'.size)
  zero : σ 0 = 0
  states : ∀ (k : Nat) (st : State), a.states[k]? = some st →
    ∃ st', a'.states[σ k]? = some st' ∧ st.Matches number σ st'

/-- Isomorphic automata have the same number of states. -/
theorem Isomorphic.size_eq {number : Int → Int} {σ : Nat → Nat} {a a' : Automaton}
    (h : Isomorphic number σ a a') : a.size = a'.size := by
  have hbij := h.bijOn
  rw [← Finset.coe_range, ← Finset.coe_range] at hbij
  simpa using hbij.finsetCard_eq

variable {number : Int → Int} {g g' : Grammar} {s : Symbol} {u v : List Symbol} {k : Nat}

/-- Two words lead to the same state, or both to none, if and only if the same
    items are valid for them. -/
theorem Charted.walk?_eq_iff (h : Charted g) :
    (build g).walk? 0 u = (build g).walk? 0 v ↔ ∀ i, Item.Valid g u i ↔ Item.Valid g v i := by
  constructor
  · intro heq i
    cases hu : (build g).walk? 0 u with
    | none =>
        have hnone : ∀ {w}, (build g).walk? 0 w = none → ¬ Item.Valid g w i := by
          intro w hw hi
          obtain ⟨k, hk⟩ := (h.canonical.walks w).mpr ⟨i, hi⟩
          exact nomatch hw.symm.trans hk
        exact iff_of_false (hnone hu) (hnone (heq.symm.trans hu))
    | some k =>
        obtain ⟨st, hst, -, hitems⟩ := h.canonical.items u k hu
        rw [← hitems i, h.mem_items_iff (heq.symm.trans hu) hst]
  · intro hsame
    cases hu : (build g).walk? 0 u with
    | none =>
        cases hv : (build g).walk? 0 v with
        | none => rfl
        | some l =>
            obtain ⟨i, hi⟩ := (h.canonical.walks v).mp ⟨l, hv⟩
            obtain ⟨k, hk⟩ := (h.canonical.walks u).mpr ⟨i, (hsame i).mpr hi⟩
            exact nomatch hu.symm.trans hk
    | some k =>
        obtain ⟨i, hi⟩ := (h.canonical.walks u).mp ⟨k, hu⟩
        obtain ⟨l, hl⟩ := (h.canonical.walks v).mpr ⟨i, (hsame i).mp hi⟩
        obtain ⟨st, hst, -, hitems⟩ := h.canonical.items u k hu
        obtain ⟨st', hst', -, hitems'⟩ := h.canonical.items v l hl
        -- states with the same items are one state
        rw [hl, h.canonical.distinct k l st st' hst hst' fun i => by
          rw [hitems, hitems', hsame]]

/-- Every walk ends in one of the states. -/
theorem Charted.lt_size_of_walk? (h : Charted g) (hk : (build g).walk? 0 u = some k) :
    k < (build g).size := by
  obtain ⟨st, hst, -⟩ := h.canonical.items u k hk
  exact (List.getElem?_eq_some_iff.mp hst).1

/-- What a word leads to says everything about the transitions of a state. -/
theorem Charted.mem_transitions_iff (h : Charted g) (hk : (build g).walk? 0 u = some k) {st : State}
    (hst : (build g).states[k]? = some st) {x : Symbol} {l : Nat} :
    (x, l) ∈ st.transitions ↔ (build g).walk? 0 (u ++ [x]) = some l := by
  rw [walk?_snoc, hk, Option.bind_some, h.goto?_eq_some_iff]
  constructor
  · exact fun hmem => ⟨st, hst, hmem⟩
  · rintro ⟨st', hst', hmem⟩
    obtain rfl := Option.some.inj (hst.symm.trans hst')
    exact hmem

/-! ## Two orders of the rules -/

section Orders

variable (h : Grammar.Renumbers number g g') (hzero : number 0 = 0) (hroot : g.Rooted s)
  (hg : Charted g) (hg' : Charted g')

include h hzero hroot hg hg'

/-- Words that lead to the same state do so in every order of the rules. -/
theorem Charted.walk?_renumbered_iff :
    (build g').walk? 0 u = (build g').walk? 0 v ↔ (build g).walk? 0 u = (build g).walk? 0 v := by
  rw [hg'.walk?_eq_iff, hg.walk?_eq_iff, Item.Valid.same_iff h hzero hroot hg'.toChecked]

/-- A word that leads to a state does so in every order of the rules. -/
theorem Charted.exists_walk_renumbered_iff :
    (∃ l, (build g').walk? 0 u = some l) ↔ ∃ k, (build g).walk? 0 u = some k := by
  rw [hg'.canonical.walks, hg.canonical.walks]
  constructor
  · rintro ⟨j, hj⟩
    obtain ⟨i, hi, -⟩ := hj.exists_renumbered h hzero hroot hg'.toChecked
    exact ⟨i, hi⟩
  · rintro ⟨i, hi⟩
    exact ⟨_, hi.renumbered h hzero hg.toChecked hg'.toChecked⟩

/-- Every state has one that the same words lead to. -/
theorem Charted.exists_counterparts :
    ∃ σ : Nat → Nat, ∀ u, (build g').walk? 0 u = ((build g).walk? 0 u).map σ := by
  have hcounterpart : ∀ k, ∃ l, ∀ u, (build g).walk? 0 u = some k →
      (build g').walk? 0 u = some l := by
    intro k
    by_cases hk : ∃ u, (build g).walk? 0 u = some k
    · obtain ⟨u, hu⟩ := hk
      obtain ⟨l, hl⟩ := (exists_walk_renumbered_iff h hzero hroot hg hg').mpr ⟨k, hu⟩
      refine ⟨l, fun v hv => ?_⟩
      rw [← hl, walk?_renumbered_iff h hzero hroot hg hg', hv, hu]
    · exact ⟨0, fun v hv => absurd ⟨v, hv⟩ hk⟩
  choose σ hσ using hcounterpart
  refine ⟨σ, fun u => ?_⟩
  cases hu : (build g).walk? 0 u with
  | some k => exact hσ k u hu
  | none =>
      refine Option.eq_none_iff_forall_ne_some.mpr fun l hl => ?_
      obtain ⟨k, hk⟩ := (exists_walk_renumbered_iff h hzero hroot hg hg').mp ⟨l, hl⟩
      exact nomatch hu.symm.trans hk

/-- The states that the same word leads to match. -/
theorem Charted.matches_of_walk? {σ : Nat → Nat}
    (hσ : ∀ u, (build g').walk? 0 u = ((build g).walk? 0 u).map σ)
    (hk : (build g).walk? 0 u = some k) {st st' : State} (hst : (build g).states[k]? = some st)
    (hst' : (build g').states[σ k]? = some st') : st.Matches number σ st' := by
  have hk' : (build g').walk? 0 u = some (σ k) := by
    rw [hσ, hk]
    rfl
  have hitems : ∀ j, j ∈ st'.items ↔ ∃ i ∈ st.items, i.renumbered number = j := by
    intro j
    rw [hg'.mem_items_iff hk' hst', Item.Valid.renumbered_iff h hzero hroot hg'.toChecked]
    simp only [hg.mem_items_iff hk hst]
  refine ⟨hitems, ?_, ?_⟩
  · intro x l
    rw [hg'.mem_transitions_iff hk' hst', hσ, Option.map_eq_some_iff]
    simp only [hg.mem_transitions_iff hk hst]
  · rw [Bool.eq_iff_iff, State.accepts_iff, State.accepts_iff, hitems]
    constructor
    · rintro ⟨i, hi, heq⟩
      obtain ⟨hrule, hdot⟩ := Item.mk.inj heq
      obtain ⟨r, hr⟩ := ((hg.mem_items_iff hk hst i).mp hi).exists_rule hroot
      -- only rule 0 is renumbered to rule 0
      have hsame : i.rule = 0 :=
        h.number_inj hroot.toChecked hr hroot.rule?_zero (hrule.trans hzero.symm)
      obtain ⟨p, d⟩ := i
      rw [Item.accepting, ← show p = 0 from hsame, ← show d = 1 from hdot]
      exact hi
    · intro hi
      refine ⟨_, hi, ?_⟩
      rw [Item.renumbered, Item.accepting, hzero]

/-- The automata of two orders of the rules are isomorphic. -/
theorem Charted.exists_isomorphic : ∃ σ, Isomorphic number σ (build g) (build g') := by
  obtain ⟨σ, hσ⟩ := exists_counterparts h hzero hroot hg hg'
  have hwalk : ∀ {u k}, (build g).walk? 0 u = some k → (build g').walk? 0 u = some (σ k) := by
    intro u k hk
    rw [hσ, hk]
    rfl
  -- a bijection on the states, from start to start, that matches what is in them
  refine ⟨σ, ⟨?_, ?_, ?_⟩, ?_, ?_⟩
  · intro k hk
    obtain ⟨u, hu⟩ := hg.exists_word k hk
    exact hg'.lt_size_of_walk? (hwalk hu)
  · intro k hk l hl heq
    obtain ⟨u, hu⟩ := hg.exists_word k hk
    obtain ⟨v, hv⟩ := hg.exists_word l hl
    have hsame : (build g').walk? 0 u = (build g').walk? 0 v := by
      rw [hwalk hu, hwalk hv, heq]
    rw [walk?_renumbered_iff h hzero hroot hg hg', hu, hv] at hsame
    exact Option.some.inj hsame
  · intro l hl
    obtain ⟨u, hu⟩ := hg'.exists_word l hl
    obtain ⟨k, hk, rfl⟩ := Option.map_eq_some_iff.mp ((hσ u).symm.trans hu)
    exact ⟨k, hg.lt_size_of_walk? hk, rfl⟩
  · have hempty : (build g').walk? 0 [] = some (σ 0) := hwalk rfl
    exact (Option.some.inj hempty).symm
  · intro k st hst
    obtain ⟨u, hu⟩ := hg.exists_word k (List.getElem?_eq_some_iff.mp hst).1
    obtain ⟨st', hst', -⟩ := hg'.canonical.items u (σ k) (hwalk hu)
    exact ⟨st', hst', matches_of_walk? h hzero hroot hg hg' hσ hu hst hst'⟩

end Orders

end Automaton

end ShiftReduce
