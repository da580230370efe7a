import ShiftReduce.Proofs.Analysis.Overlap

/-! # Augmentation is conservative — the analysis does not change

    The new start symbol is fresh, so the rules of a grammar never mention it and
    the new rule 0 never adds to the set of another symbol: for FIRST the rounds
    of the two grammars go side by side, with the same sets for all symbols but
    the new one.  For FOLLOW they do not, since the end marker is put in different
    places and reaches a start symbol from before the last augmentation one round
    late.  There both ends are compared with what stands behind a symbol in
    derived forms (`Grammar.Follows`), which augmentation does not change. -/

namespace ShiftReduce

namespace Grammar

variable {g : Grammar}

/-! ## The augmented grammar -/

/-- Priming goes on until a name is free. -/
theorem settles_primed {fuel : Nat} {s : Symbol} (hfree : g.isTaken (g.primed fuel s) = false) :
    Settles (fun s => if g.isTaken s then s ++ "'" else s) s (g.primed fuel s) := by
  induction fuel generalizing s with
  | zero =>
      rw [primed] at hfree ⊢
      exact .done (by simp [hfree])
  | succ fuel ih =>
      rw [primed] at hfree ⊢
      cases hs : g.isTaken s with
      | false =>
          rw [if_neg (by simp)]
          exact .done (by simp [hs])
      | true =>
          rw [hs, if_pos rfl] at hfree
          rw [if_pos rfl]
          refine .again (by simp [hs]) ?_
          rw [hs, if_pos rfl]
          exact ih hfree

/-- The rules move up by one number to make room for the start rule. -/
theorem rule?_augmented (g : Grammar) (n : Nat) :
    g.augmented.rule? (n + 1 : Nat) = (g.rule? n).map fun r => { r with id := r.id + 1 } := by
  show (_ :: g.rules.map _)[n + 1]? = (g.rules[n]?).map _
  rw [List.getElem?_cons_succ, List.getElem?_map]

/-- Old nonterminals differ from the new start symbol. -/
theorem ne_freshStart_of_mem {s : Symbol} (hs : s ∈ g.nonterminals) : s ≠ g.freshStart := by
  rintro rfl
  exact g.freshStart_fresh.2 hs

/-- Old rules do not mention the new start symbol. -/
theorem Checked.ne_freshStart (hg : g.Checked) {r : Production} (hr : r ∈ g.rules) :
    r.lhs ≠ g.freshStart ∧ ∀ s ∈ r.body, s ≠ g.freshStart := by
  constructor
  · exact ne_freshStart_of_mem (hg.lhs_mem r hr)
  · rintro s hs rfl
    rcases hg.body_mem r hr _ hs with h | h
    · exact g.freshStart_fresh.1 h
    · exact g.freshStart_fresh.2 h

/-! ## FOLLOW in derived forms -/

/-- A derivation from the new start symbol goes through the old one. -/
theorem WellFormed.derives_of_freshStart (hg : g.WellFormed) {w : List Symbol}
    (h : g.augmented.Derives [g.freshStart] w) : w = [g.freshStart] ∨ g.Derives [g.start] w := by
  rcases Relation.ReflTransGen.cases_head h with rfl | ⟨v, hstep, hrest⟩
  · exact Or.inl rfl
  · refine Or.inr ?_
    generalize hu : [g.freshStart] = u at hstep
    obtain ⟨a, b, r, hr⟩ := hstep
    obtain ⟨rfl, hlhs, rfl⟩ : a = [] ∧ r.lhs = g.freshStart ∧ b = [] := by
      rcases List.cons_eq_append_iff.mp hu with ⟨rfl, hcons⟩ | ⟨a', rfl, hnil⟩
      · obtain ⟨hlhs, hb⟩ := List.cons.inj hcons
        exact ⟨rfl, hlhs, hb⟩
      · simp at hnil
    rcases mem_rules_augmented.mp hr with rfl | ⟨q, hq, rfl⟩
    · refine (hg.derives_of_augmented hrest ?_).1
      exact fun hmem => ne_freshStart_of_mem hg.start_mem (List.mem_singleton.mp hmem).symm
    · exact absurd hlhs (hg.ne_freshStart hq).1

/-- Augmentation does not change what stands behind an old symbol. -/
theorem WellFormed.follows_augmented_iff (hg : g.WellFormed) {a x : Symbol}
    (ha : a ≠ g.freshStart) : g.augmented.Follows a x ↔ g.Follows a x := by
  constructor
  · intro h
    cases h with
    | last u h =>
        rcases hg.derives_of_freshStart h with heq | h
        · obtain ⟨rfl, hlast⟩ : u = [] ∧ [a] = [g.freshStart] := by
            rcases List.append_eq_cons_iff.mp heq with ⟨hu, hcons⟩ | ⟨u', -, hnil⟩
            · exact ⟨hu, hcons⟩
            · simp at hnil
          exact absurd (List.cons.inj hlast).1 ha
        · exact .last u h
    | @next b x hb hx u v h =>
        rcases List.mem_cons.mp hb with rfl | hb
        · -- the new start symbol derives itself and what the old one derives
          rcases hg.derives_of_freshStart h with heq | h
          · have hlength := congrArg List.length heq
            simp only [List.length_append, List.length_cons, List.length_nil] at hlength
            omega
          · exact .next hg.start_mem hx u v h
        · refine .next hb hx u v (hg.derives_of_augmented h ?_).1
          exact fun hmem => ne_freshStart_of_mem hb (List.mem_singleton.mp hmem).symm
  · intro h
    cases h with
    | last u h =>
        -- one step leads from the new start symbol to the old one
        have hroot : g.augmented.Derives [g.freshStart] [g.start] :=
          Derives.of_rule (r := { id := 0, lhs := g.freshStart, body := [g.start] })
            (mem_rules_augmented.mpr (Or.inl rfl))
        exact .last u (hroot.trans h.augmented)
    | next hb hx u v h => exact .next (List.mem_cons_of_mem _ hb) hx u v h.augmented

end Grammar

/-- The rounds of an analysis come to an end by themselves. -/
structure Analysis.Settled (g : Grammar) : Prop where
  first : Settles (First.round g) (First.initial g) (Analysis.ofGrammar g).firstSets
  follow : Settles (Follow.round g (Analysis.ofGrammar g).firstSets) (Follow.initial g)
    (Analysis.ofGrammar g).followSets

/-- In a checked grammar both loops come to rest within their bounds. -/
theorem Grammar.Checked.settled {g : Grammar} (hg : g.Checked) : Analysis.Settled g where
  first := settles_saturate _ _ (First.round_sets_of_checked hg)
  follow := settles_saturate _ _ (Follow.round_sets_of_checked hg)

namespace First

open SymbolMap

variable {g : Grammar} {m n : SymbolMap}

/-- Before the first round the new start symbol is the only difference. -/
theorem initial_augmented (g : Grammar) :
    Same (· ≠ g.freshStart) (initial g.augmented) (initial g) := by
  intro k hk
  rw [lookup_initial, lookup_initial]
  have hmem : k ∈ g.augmented.nonterminals ↔ k ∈ g.nonterminals :=
    List.mem_cons.trans (or_iff_right hk)
  simp only [hmem]
  rfl

/-- The new rule adds to the new symbol only, and the others add the same. -/
theorem round_augmented (hg : g.Checked) (h : Same (· ≠ g.freshStart) m n) :
    Same (· ≠ g.freshStart) (round g.augmented m) (round g n) := by
  have hrest : ∀ rs ⊆ g.rules, ∀ m n, Same (· ≠ g.freshStart) m n →
      Same (· ≠ g.freshStart)
        ((rs.map fun r => { r with id := r.id + 1 }).foldl applyRule m) (rs.foldl applyRule n) := by
    intro rs
    induction rs with
    | nil => exact fun _ m n h => h
    | cons r rs ih =>
        intro hsub m n h
        obtain ⟨hlhs, hbody⟩ := hg.ne_freshStart (hsub List.mem_cons_self)
        exact ih (fun q hq => hsub (List.mem_cons_of_mem _ hq)) _ _ (applyRule_same h hlhs hbody)
  exact hrest g.rules (fun _ hr => hr) _ _ (h.extend_left (fun hne => hne rfl) _)

/-- Augmentation changes FIRST of the new start symbol only. -/
theorem sets_augmented (hg : g.Checked) :
    Same (· ≠ g.freshStart) (sets g.augmented) (sets g) := by
  have hle : rounds g ≤ rounds g.augmented := by
    show g.nonterminals.length * (g.terminals.length + 1) + 1 ≤
      (g.nonterminals.length + 1) * (g.terminals.length + 1) + 1
    exact Nat.succ_le_succ (Nat.mul_le_mul_right _ (Nat.le_succ _))
  rw [sets, sets, ← saturate_of_le (round_sets_of_checked hg) hle]
  exact saturate_related (fun _ _ h => round_augmented hg h) _ _ _ (initial_augmented g)

end First

namespace Follow

open SymbolMap

variable {g : Grammar}

/-- FOLLOW has what follows a nonterminal, and nothing for other symbols. -/
theorem mem_get_sets_iff (hg : g.Made) (hwf : g.WellFormed) {a x : Symbol} :
    x ∈ get (sets g (First.sets g)) a ↔ a ∈ g.nonterminals ∧ g.Follows a x := by
  constructor
  · exact sound_sets hg hwf a x
  · rintro ⟨ha, h⟩
    exact (mem_sets_iff hg hwf ha).mpr h

/-- Augmentation changes FOLLOW of the new start symbol only. -/
theorem get_sets_augmented (hg : g.Made) {a : Symbol} (ha : a ≠ g.freshStart) :
    get (sets g.augmented (First.sets g.augmented)) a = get (sets g (First.sets g)) a := by
  have hchecked := hg.checked.1
  have hmade : g.separated.augmented.Made :=
    .augmented hg.separated (Grammar.augment_eq hg.checked.2)
  have hwf := hchecked.separated
  have hfresh : a ≠ g.separated.freshStart := by
    rwa [Grammar.freshStart_separated]
  rw [sets_separated hchecked.augmented, sets_separated hchecked, Grammar.separated_augmented]
  refine ((stage_sets hwf.rooted_augmented.toWellFormed).sorted a).eq_of_mem_iff
    ((stage_sets hwf).sorted a) fun x => ?_
  rw [mem_get_sets_iff hmade hwf.rooted_augmented.toWellFormed,
    mem_get_sets_iff hg.separated hwf, hwf.follows_augmented_iff hfresh]
  exact and_congr_left' (List.mem_cons.trans (or_iff_right hfresh))

end Follow

/-! ## The analyses of both grammars -/

/-- **Augmentation is conservative.**  For every grammar that was assembled, and
    augmented any number of times, also with overlapping alphabets: priming the
    start symbol comes to an end with a name that is neither declared nor
    reserved.  This new start symbol is the left side of rule 0 only, which leads
    to the old one, and is in no body; the other rules are the old ones, moved up
    by one.  The rounds of both analyses come to an end, and they agree on FIRST,
    FOLLOW and nullability of every symbol but the new one, and on FIRST of every
    sequence without it. -/
theorem Analysis.augment_conservative {g : Grammar} (hg : g.Made) :
    ∃ a, g.augment = .ok a ∧
      Settles (fun s => if g.isTaken s then s ++ "'" else s) (g.start ++ "'") a.start ∧
      g.isTaken a.start = false ∧
      a.rule? 0 = some { id := 0, lhs := a.start, body := [g.start] } ∧
      (∀ n : Nat, a.rule? (n + 1 : Nat) = (g.rule? n).map fun r => { r with id := r.id + 1 }) ∧
      (∀ r ∈ a.rules, (r.lhs = a.start ↔ r.id = 0) ∧ a.start ∉ r.body) ∧
      Analysis.Settled g ∧ Analysis.Settled a ∧
      (∀ s, s ≠ a.start →
        (Analysis.ofGrammar a).first s = (Analysis.ofGrammar g).first s ∧
        (Analysis.ofGrammar a).follow s = (Analysis.ofGrammar g).follow s ∧
        (Analysis.ofGrammar a).nullable s = (Analysis.ofGrammar g).nullable s) ∧
      ∀ u : List Symbol, a.start ∉ u →
        (Analysis.ofGrammar a).firstOfSequence u = (Analysis.ofGrammar g).firstOfSequence u := by
  obtain ⟨hchecked, hne⟩ := hg.checked
  have hfirst := First.sets_augmented hchecked
  have hsymbol (s : Symbol) (hs : s ≠ g.freshStart) :
      (Analysis.ofGrammar g.augmented).first s = (Analysis.ofGrammar g).first s := by
    show ((First.sets g.augmented).lookup s).getD [s] = ((First.sets g).lookup s).getD [s]
    rw [hfirst s hs]
  have hfree := g.isTaken_freshStart
  refine ⟨g.augmented, Grammar.augment_eq hne, Grammar.settles_primed hfree, hfree, rfl,
    g.rule?_augmented, ?_, hchecked.settled, hchecked.augmented.settled, ?_, ?_⟩
  · intro r hr
    -- a rule is the new one or an old one moved up by one
    rcases Grammar.mem_rules_augmented.mp hr with rfl | ⟨q, hq, rfl⟩
    · refine ⟨iff_of_true rfl rfl, fun hmem => ?_⟩
      exact Grammar.ne_freshStart_of_mem hchecked.start_mem (List.mem_singleton.mp hmem).symm
    · obtain ⟨hlhs, hbody⟩ := hchecked.ne_freshStart hq
      refine ⟨iff_of_false hlhs ?_, fun hmem => hbody _ hmem rfl⟩
      have hrange := (hchecked.id_range hq).1
      show q.id + 1 ≠ 0
      omega
  · intro s hs
    refine ⟨hsymbol s hs, Follow.get_sets_augmented hg hs, ?_⟩
    rw [Analysis.nullable, Analysis.nullable, hsymbol s hs]
  · intro u hu
    exact First.ofSequence_same hfirst fun s hs => by
      rintro rfl
      exact hu hs

/-- A grammar in which the start symbol with one prime is a terminal and `A` is
    in both alphabets. -/
def primedGrammar : Grammar :=
  { name := "primed", start := "S", terminals := ["S'", "A"], nonterminals := ["S", "A"]
    rules := [{ id := 0, lhs := "S", body := ["A", "S'"] }, { id := 1, lhs := "A", body := ["S"] },
      { id := 2, lhs := "A", body := [] }] }

/-- A grammar that is augmented twice is one that can be made. -/
theorem made_primedTwice : primedGrammar.augmented.Made := by
  have h : Grammar.assemble "primed" "S" ["S'", "A"] ["S", "A"] (primedGrammar.rules.map some) =
      .ok primedGrammar := rfl
  exact .augmented (.assembled h) rfl

/-- Augmented a second time, the start symbol has three primes, and FOLLOW of the
    very first start symbol still has the end marker. -/
theorem augment_conservative_primed :
    ∃ a, primedGrammar.augmented.augment = .ok a ∧ a.start = "S'''" ∧
      (Analysis.ofGrammar a).follow "S" = ["$", "S'"] := by
  obtain ⟨a, ha, -, -, -, -, -, -, -, hagree, -⟩ := Analysis.augment_conservative made_primedTwice
  obtain rfl : primedGrammar.augmented.augmented = a := Except.ok.inj ha
  refine ⟨_, ha, by decide +kernel, ?_⟩
  rw [(hagree "S" (by decide +kernel)).2.1]
  decide +kernel

end ShiftReduce
