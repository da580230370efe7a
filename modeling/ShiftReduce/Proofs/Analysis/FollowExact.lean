import ShiftReduce.Proofs.Analysis.FirstExact
import ShiftReduce.Proofs.Analysis.Follow

/-! # FOLLOW sets are exact — nothing but what stands behind a nonterminal

    `g.Follows a x` says what FOLLOW is about: the terminal `x` stands right
    behind `a` in a form that some nonterminal derives, or `x` is the end marker
    and `a` stands last in a form that the start symbol derives.  FOLLOW misses
    nothing, by induction on derivations.  That it has nothing else is kept by
    every extension of every round, also in the middle of a round: behind an
    occurrence in a body stands what the rest of the body begins with and, if
    the rest can vanish, what follows the left side. -/

namespace ShiftReduce

namespace Grammar

/-- What stands behind a symbol in derived forms; the end marker stands for the
    end of a form that the start symbol derives. -/
inductive Follows (g : Grammar) (a : Symbol) : Symbol → Prop where
  | last (u : List Symbol) (h : g.Derives [g.start] (u ++ [a])) : Follows g a Symbol.endMarker
  | next {b x : Symbol} (hb : b ∈ g.nonterminals) (hx : x ∈ g.terminals) (u v : List Symbol)
      (h : g.Derives [b] (u ++ a :: x :: v)) : Follows g a x

namespace Follows

variable {g : Grammar} {a x : Symbol} {r : Production} {u rest : List Symbol}

/-- A symbol of a body is followed by what the rest of the body begins with. -/
theorem of_begins (hg : g.Checked) (hr : r ∈ g.rules) (hbody : r.body = u ++ a :: rest)
    (hx : x ≠ Symbol.epsilon) (h : g.Begins rest x) : g.Follows a x := by
  cases h with
  | vanishes _ => exact absurd rfl hx
  | terminal hterminal v hrest =>
      refine .next (hg.lhs_mem r hr) hterminal u v ?_
      have hrule : g.Derives [r.lhs] (u ++ [a] ++ rest) := by
        rw [List.append_assoc, List.singleton_append, ← hbody]
        exact .of_rule hr
      simpa using hrule.trans ((Derives.refl (u ++ [a])).append hrest)

/-- Before a rest that can vanish, a symbol of a body is followed by what the
    left side is followed by. -/
theorem of_lhs (hr : r ∈ g.rules) (hbody : r.body = u ++ a :: rest) (hrest : g.Derives rest [])
    (h : g.Follows r.lhs x) : g.Follows a x := by
  have hrule : g.Derives [r.lhs] (u ++ [a]) := by
    have hvanishes := (Derives.refl (u ++ [a])).append hrest
    rw [List.append_nil, List.append_assoc, List.singleton_append, ← hbody] at hvanishes
    exact (Derives.of_rule hr).trans hvanishes
  cases h with
  | last w h =>
      refine .last (w ++ u) (h.trans ?_)
      simpa using hrule.inside w []
  | next hb hx w v h =>
      have hinside : g.Derives (w ++ [r.lhs] ++ x :: v) (w ++ (u ++ [a]) ++ x :: v) :=
        hrule.inside w (x :: v)
      refine .next hb hx (w ++ u) v (h.trans ?_)
      simpa using hinside

/-- A terminal follows a symbol if some nonterminal derives a form in which it stands
    behind that symbol. -/
theorem terminal_iff (hg : g.Checked) (hx : x ∈ g.terminals) :
    g.Follows a x ↔ ∃ b ∈ g.nonterminals, ∃ u v, g.Derives [b] (u ++ a :: x :: v) := by
  constructor
  · intro h
    cases h with
    | last _ _ => exact absurd rfl (hg.ne_of_mem (Or.inl hx)).2.1
    | next hb _ u v h => exact ⟨_, hb, u, v, h⟩
  · rintro ⟨b, hb, u, v, h⟩
    exact .next hb hx u v h

/-- The end follows a symbol if the start symbol derives a form that the symbol ends. -/
theorem endMarker_iff (hg : g.Checked) :
    g.Follows a Symbol.endMarker ↔ ∃ u, g.Derives [g.start] (u ++ [a]) := by
  constructor
  · intro h
    cases h with
    | last u h => exact ⟨u, h⟩
    | next _ hx _ _ _ => exact absurd rfl (hg.ne_of_mem (Or.inl hx)).2.1
  · rintro ⟨u, h⟩
    exact .last u h

end Follows

/-- In a made grammar, the start symbol before augmentation is a nonterminal that
    the new one derives. -/
theorem Made.innerStart {g : Grammar} (hg : g.Made) {s : Symbol} (hs : g.innerStart = some s) :
    s ∈ g.nonterminals ∧ g.Derives [g.start] [s] := by
  cases hg with
  | assembled h =>
      rw [(assemble_checked h).2.1] at hs
      cases hs
  | @augmented inner _ hinner h =>
      rw [augment] at h
      split at h
      · cases h
      · obtain rfl := Except.ok.inj h
        obtain rfl : inner.start = s := Option.some.inj hs
        refine ⟨List.mem_cons_of_mem _ hinner.checked.1.start_mem, ?_⟩
        exact Derives.of_rule (r := { id := 0, lhs := inner.freshStart, body := [inner.start] })
          (mem_rules_augmented.mpr (Or.inl rfl))

end Grammar

namespace Follow

variable {g : Grammar} {m : SymbolMap}

/-! ## Soundness of the rounds -/

/-- Only nonterminals have sets with members, and these have nothing but what
    stands behind the nonterminal. -/
def Sound (g : Grammar) (m : SymbolMap) : Prop :=
  ∀ n x, x ∈ SymbolMap.get m n → n ∈ g.nonterminals ∧ g.Follows n x

/-- Adding what follows keeps a map sound. -/
theorem Sound.extend (h : Sound g m) {k : Symbol} (hk : k ∈ g.nonterminals) {s : SymbolSet}
    (hs : ∀ x ∈ s, g.Follows k x) : Sound g (SymbolMap.extend k s m) := by
  intro n x hx
  rcases SymbolMap.mem_get_extend.mp hx with hold | ⟨rfl, hnew⟩
  · exact h n x hold
  · exact ⟨hk, hs x hnew⟩

/-- Before the first round the end marker follows the start symbol, which is so. -/
theorem sound_initial (hg : g.Made) : Sound g (initial g) := by
  have hempty : Sound g (g.nonterminals.foldl (fun m n => SymbolMap.put n [] m) []) := by
    intro n x hx
    rw [SymbolMap.get, SymbolMap.lookup_foldl_put (fun _ => [])] at hx
    split at hx
    · exact absurd hx List.not_mem_nil
    · exact absurd hx List.not_mem_nil
  have hstarted : Sound g (SymbolMap.extend g.start [Symbol.endMarker]
      (g.nonterminals.foldl (fun m n => SymbolMap.put n [] m) [])) := by
    refine hempty.extend hg.checked.1.start_mem ?_
    intro x hx
    obtain rfl := List.mem_singleton.mp hx
    exact .last [] (.refl _)
  rw [initial]
  split
  · rename_i s hs
    obtain ⟨hmem, hder⟩ := hg.innerStart hs
    refine hstarted.extend hmem ?_
    intro x hx
    obtain rfl := List.mem_singleton.mp hx
    exact .last [] hder
  · exact hstarted

/-- What an occurrence in a body adds, stands behind it. -/
theorem Sound.contribution (h : Sound g m) (hg : g.WellFormed) {r : Production} (hr : r ∈ g.rules)
    {u rest : List Symbol} {s : Symbol} (hbody : r.body = u ++ s :: rest) :
    ∀ x ∈ Follow.contribution (First.sets g) m r.lhs rest, g.Follows s x := by
  have hrest : ∀ y ∈ rest, y ∈ g.terminals ∨ y ∈ g.nonterminals := by
    intro y hy
    refine hg.body_mem r hr y ?_
    rw [hbody]
    exact List.mem_append_right _ (List.mem_cons_of_mem _ hy)
  intro x hx
  rcases mem_contribution.mp hx with ⟨hne, hfirst⟩ | ⟨heps, hfollow⟩
  · exact .of_begins hg.toChecked hr hbody hne ((First.mem_ofSequence_iff hg hrest).mp hfirst)
  · have hvanishes : g.Derives rest [] :=
      (Grammar.Begins.epsilon_iff hg.toChecked).mp ((First.mem_ofSequence_iff hg hrest).mp heps)
    exact .of_lhs hr hbody hvanishes (h r.lhs x hfollow).2

/-- The pass over a body; `u` is the part that the pass has left behind. -/
theorem Sound.applyBody (hg : g.WellFormed) {r : Production} (hr : r ∈ g.rules) :
    ∀ (body u : List Symbol), r.body = u ++ body → ∀ {m : SymbolMap}, Sound g m →
      Sound g (Follow.applyBody g (First.sets g) r.lhs body m) := by
  intro body
  induction body with
  | nil => intro u _ m h; exact h
  | cons s rest ih =>
      intro u hbody m h
      rw [Follow.applyBody]
      refine ih (u ++ [s]) (by simpa using hbody) ?_
      by_cases hs : g.isNonterminal s = true
      · rw [if_pos hs]
        exact h.extend (Grammar.isNonterminal_iff.mp hs) (h.contribution hg hr hbody)
      · rw [if_neg hs]
        exact h

/-- A round adds only what follows. -/
theorem Sound.round (h : Sound g m) (hg : g.WellFormed) :
    Sound g (Follow.round g (First.sets g) m) := by
  refine List.foldlRecOn (motive := Sound g) g.rules _ h ?_
  intro m h r hr
  exact Sound.applyBody hg hr r.body [] rfl h

theorem sound_sets (hg : g.Made) (hwf : g.WellFormed) : Sound g (sets g (First.sets g)) :=
  saturate_induct (P := Sound g) (fun _ h => h.round hwf) _ _ (sound_initial hg)

/-- FOLLOW of a nonterminal has exactly what follows it. -/
theorem mem_sets_iff (hg : g.Made) (hwf : g.WellFormed) {a x : Symbol} (ha : a ∈ g.nonterminals) :
    x ∈ SymbolMap.get (sets g (First.sets g)) a ↔ g.Follows a x := by
  constructor
  · intro hx
    exact (sound_sets hg hwf a x hx).2
  · intro h
    cases h with
    | last u h =>
        obtain ⟨-, hempty⟩ := mem_sets_of_derives hwf h u a [] rfl ha
        exact hempty List.mem_cons_self _ (stage_sets hwf).start
    | next hb hx u v h =>
        obtain ⟨hfirst, -⟩ := mem_sets_of_derives hwf h u a (x :: v) rfl ha
        exact hfirst x (First.mem_ofSequence_word hwf hx v) (hwf.ne_of_mem (Or.inl hx)).1

end Follow

/-! ## The analysis of a grammar -/

/-- **FOLLOW is exact.**  For every grammar that was assembled, and augmented any
    number of times, with disjoint alphabets: the rounds come to an end, and
    FOLLOW of a nonterminal has a terminal if and only if some nonterminal
    derives a form in which the terminal stands right behind it, the end marker
    if and only if the start symbol derives a form that ends with it, and
    neither `ε` nor a nonterminal.  Terminals have no FOLLOW. -/
theorem Analysis.followSets_exact {g : Grammar} (hg : g.Made)
    (hd : ∀ s ∈ g.terminals, s ∉ g.nonterminals) :
    Settles (Follow.round g (Analysis.ofGrammar g).firstSets) (Follow.initial g)
      (Analysis.ofGrammar g).followSets ∧
    (∀ a ∈ g.nonterminals,
      (∀ x ∈ g.terminals, x ∈ (Analysis.ofGrammar g).follow a ↔
        ∃ b ∈ g.nonterminals, ∃ u v, g.Derives [b] (u ++ a :: x :: v)) ∧
      (Symbol.endMarker ∈ (Analysis.ofGrammar g).follow a ↔
        ∃ u, g.Derives [g.start] (u ++ [a])) ∧
      Symbol.epsilon ∉ (Analysis.ofGrammar g).follow a ∧
      ∀ n ∈ g.nonterminals, n ∉ (Analysis.ofGrammar g).follow a) ∧
    ∀ t ∈ g.terminals, (Analysis.ofGrammar g).follow t = [] := by
  have hwf := hg.wellFormed hd
  have hiff : ∀ {a x : Symbol}, a ∈ g.nonterminals →
      (x ∈ (Analysis.ofGrammar g).follow a ↔ g.Follows a x) :=
    fun ha => Follow.mem_sets_iff hg hwf ha
  have hwithin : ∀ a ∈ g.nonterminals, ∀ x ∈ (Analysis.ofGrammar g).follow a,
      x = Symbol.endMarker ∨ x ∈ g.terminals :=
    fun a ha x hx => List.mem_cons.mp ((Follow.stage_sets hwf).within a ha x hx)
  refine ⟨settles_saturate _ _ (Follow.round_sets hwf), ?_, ?_⟩
  · intro a ha
    refine ⟨?_, ?_, ?_, ?_⟩
    · intro x hx
      exact (hiff ha).trans (Grammar.Follows.terminal_iff hwf.toChecked hx)
    · exact (hiff ha).trans (Grammar.Follows.endMarker_iff hwf.toChecked)
    · intro hx
      rcases hwithin a ha _ hx with hmark | hterminal
      · exact absurd hmark (by decide)
      · exact (hwf.ne_of_mem (Or.inl hterminal)).1 rfl
    · intro n hn hx
      rcases hwithin a ha n hx with hmark | hterminal
      · exact (hwf.ne_of_mem (Or.inr hn)).2.1 hmark
      · exact hwf.disjoint n hterminal hn
  · intro t ht
    refine List.eq_nil_iff_forall_not_mem.mpr ?_
    intro x hx
    -- the map is sound: it has sets for nonterminals only, and no terminal is one
    exact hwf.disjoint t ht (Follow.sound_sets hg hwf t x hx).1

/-- In the tangled grammar `b` follows `A`, since `B` can vanish, and `a` does not;
    `S` can stand last, and `A` cannot. -/
theorem followSets_exact_tangled :
    (∃ n ∈ tangledGrammar.nonterminals, ∃ u v,
        tangledGrammar.Derives [n] (u ++ "A" :: "b" :: v)) ∧
      (¬ ∃ n ∈ tangledGrammar.nonterminals, ∃ u v,
        tangledGrammar.Derives [n] (u ++ "A" :: "a" :: v)) ∧
      (∃ u, tangledGrammar.Derives ["S"] (u ++ ["S"])) ∧
      ¬ ∃ u, tangledGrammar.Derives ["S"] (u ++ ["A"]) := by
  obtain ⟨-, hsets, -⟩ := Analysis.followSets_exact made_tangled (by decide)
  refine ⟨?_, ?_, ?_, ?_⟩
  · exact ((hsets "A" (by decide)).1 "b" (by decide)).mp (by decide +kernel)
  · exact mt ((hsets "A" (by decide)).1 "a" (by decide)).mpr (by decide +kernel)
  · exact (hsets "S" (by decide)).2.1.mp (by decide +kernel)
  · exact mt (hsets "A" (by decide)).2.1.mpr (by decide +kernel)

end ShiftReduce
