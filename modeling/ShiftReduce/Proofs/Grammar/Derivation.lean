import Mathlib.Logic.Relation
import ShiftReduce.Proofs.Grammar.WellFormed

/-! # Derivations — rewriting left sides by bodies

    A form is a list of symbols.  One rewriting step replaces one occurrence of
    the left side of a rule by its body; a derivation is any number of steps.
    The sentences of a grammar are the words of terminals that its start symbol
    derives.  A rightmost derivation has terminals only behind what it rewrites,
    and keeps the list of its rules.  Augmentation neither adds nor removes
    derivations between forms that do not mention the new start symbol. -/

namespace ShiftReduce

namespace Grammar

/-- One occurrence of a left side is replaced by the body of its rule. -/
inductive Rewrites (g : Grammar) : List Symbol → List Symbol → Prop where
  | step (u v : List Symbol) (r : Production) (hr : r ∈ g.rules) :
      Rewrites g (u ++ r.lhs :: v) (u ++ r.body ++ v)

/-- Any number of rewriting steps. -/
def Derives (g : Grammar) : List Symbol → List Symbol → Prop :=
  Relation.ReflTransGen g.Rewrites

/-- A word that has terminals only. -/
def IsWord (g : Grammar) (w : List Symbol) : Prop :=
  ∀ s ∈ w, s ∈ g.terminals

/-- A word of terminals that the start symbol derives. -/
def Sentence (g : Grammar) (w : List Symbol) : Prop :=
  g.Derives [g.start] w ∧ g.IsWord w

/-- Every nonterminal derives some word of terminals. -/
def Productive (g : Grammar) : Prop :=
  ∀ n ∈ g.nonterminals, ∃ w, g.Derives [n] w ∧ g.IsWord w

variable {g : Grammar}

/-- Two words side by side are a word. -/
theorem IsWord.append {u v : List Symbol} (hu : g.IsWord u) (hv : g.IsWord v) :
    g.IsWord (u ++ v) := by
  intro s hs
  rcases List.mem_append.mp hs with h | h
  · exact hu s h
  · exact hv s h

namespace Derives

theorem refl (u : List Symbol) : g.Derives u u :=
  Relation.ReflTransGen.refl

theorem trans {u v w : List Symbol} (h : g.Derives u v) (h' : g.Derives v w) : g.Derives u w :=
  Relation.ReflTransGen.trans h h'

/-- A rule derives its body in one step. -/
theorem of_rule {r : Production} (hr : r ∈ g.rules) : g.Derives [r.lhs] r.body := by
  have h := Rewrites.step (g := g) [] [] r hr
  rw [List.nil_append, List.nil_append, List.append_nil] at h
  exact Relation.ReflTransGen.single h

/-- A derivation can take place between any two forms. -/
theorem inside {u v : List Symbol} (h : g.Derives u v) (l r : List Symbol) :
    g.Derives (l ++ u ++ r) (l ++ v ++ r) := by
  induction h with
  | refl => exact refl _
  | tail _ hstep ih =>
      obtain ⟨a, b, p, hp⟩ := hstep
      refine ih.tail ?_
      have h := Rewrites.step (g := g) (l ++ a) (b ++ r) p hp
      simpa only [List.append_assoc, List.cons_append] using h

/-- Forms side by side are derived side by side. -/
theorem append {u u' v v' : List Symbol} (h : g.Derives u u') (h' : g.Derives v v') :
    g.Derives (u ++ v) (u' ++ v') := by
  have h₁ := h.inside [] v
  have h₂ := h'.inside u' []
  rw [List.nil_append, List.nil_append] at h₁
  rw [List.append_nil, List.append_nil] at h₂
  exact h₁.trans h₂

end Derives

/-- In a grammar where every nonterminal derives a word, every form of declared
    symbols does. -/
theorem Productive.exists_word (hp : g.Productive) :
    ∀ u : List Symbol, (∀ s ∈ u, s ∈ g.terminals ∨ s ∈ g.nonterminals) →
      ∃ w, g.Derives u w ∧ g.IsWord w := by
  intro u
  induction u with
  | nil => intro _; exact ⟨[], Derives.refl _, fun s hs => nomatch hs⟩
  | cons x u ih =>
      intro hu
      obtain ⟨w, hw, hww⟩ := ih fun s hs => hu s (List.mem_cons_of_mem _ hs)
      obtain ⟨v, hv, hvw⟩ : ∃ v, g.Derives [x] v ∧ g.IsWord v := by
        rcases hu x List.mem_cons_self with ht | hn
        · refine ⟨[x], Derives.refl _, ?_⟩
          intro s hs
          obtain rfl := List.mem_singleton.mp hs
          exact ht
        · exact hp x hn
      exact ⟨v ++ w, hv.append hw, hvw.append hww⟩

/-! ## Rightmost derivations -/

/-- The last nonterminal, behind which stand terminals only, is replaced by the
    body of a rule. -/
inductive RewritesRightmost (g : Grammar) (r : Production) : List Symbol → List Symbol → Prop where
  | step (u w : List Symbol) (hr : r ∈ g.rules) (hw : g.IsWord w) :
      RewritesRightmost g r (u ++ r.lhs :: w) (u ++ r.body ++ w)

/-- A derivation that always rewrites the last nonterminal, by a list of rules in
    this order. -/
inductive DerivesRightmost (g : Grammar) :
    List Symbol → List Production → List Symbol → Prop where
  | refl (u : List Symbol) : DerivesRightmost g u [] u
  | tail {u v w : List Symbol} {rs : List Production} {r : Production}
      (h : DerivesRightmost g u rs v) (hstep : g.RewritesRightmost r v w) :
      DerivesRightmost g u (rs ++ [r]) w

/-! ## Augmentation -/

/-- What a rule rewrites, it rewrites in the augmented grammar. -/
theorem Rewrites.augmented {u v : List Symbol} (h : g.Rewrites u v) :
    g.augmented.Rewrites u v := by
  obtain ⟨a, b, r, hr⟩ := h
  exact Rewrites.step (g := g.augmented) a b { r with id := r.id + 1 }
    (mem_rules_augmented.mpr (Or.inr ⟨r, hr, rfl⟩))

/-- What is derived is derived in the augmented grammar. -/
theorem Derives.augmented {u v : List Symbol} (h : g.Derives u v) : g.augmented.Derives u v :=
  Relation.ReflTransGen.mono (fun _ _ hstep => hstep.augmented) _ _ h

/-- A derivation of the augmented grammar that does not begin with the new start
    symbol never meets it. -/
theorem WellFormed.derives_of_augmented (hg : g.WellFormed) {u v : List Symbol}
    (h : g.augmented.Derives u v) (hu : g.freshStart ∉ u) : g.Derives u v ∧ g.freshStart ∉ v := by
  induction h with
  | refl => exact ⟨Derives.refl _, hu⟩
  | tail _ hstep ih =>
      obtain ⟨ih, hfresh⟩ := ih
      obtain ⟨a, b, r, hr⟩ := hstep
      rcases mem_rules_augmented.mp hr with rfl | ⟨q, hq, rfl⟩
      · exact absurd (by simp) hfresh
      · refine ⟨ih.tail (Rewrites.step (g := g) a b q hq), ?_⟩
        intro hmem
        have hbody : g.freshStart ∉ q.body := by
          intro h
          rcases hg.body_mem q hq _ h with h | h
          · exact g.freshStart_fresh.1 h
          · exact g.freshStart_fresh.2 h
        simp only [List.mem_append, List.mem_cons, not_or] at hfresh hmem
        rcases hmem with (h | h) | h
        · exact hfresh.1 h
        · exact hbody h
        · exact hfresh.2.2 h

/-- Sentences in terms of the augmented grammar. -/
theorem WellFormed.sentence_iff_augmented (hg : g.WellFormed) {w : List Symbol} :
    g.Sentence w ↔ g.augmented.Derives [g.start] w ∧ g.augmented.IsWord w := by
  constructor
  · rintro ⟨h, hw⟩
    exact ⟨h.augmented, hw⟩
  · rintro ⟨h, hw⟩
    refine ⟨(hg.derives_of_augmented h ?_).1, hw⟩
    intro hmem
    exact g.freshStart_fresh.2 (List.mem_singleton.mp hmem ▸ hg.start_mem)

/-- If every nonterminal derives a word, the new start symbol does so, too. -/
theorem WellFormed.productive_augmented (hg : g.WellFormed) (hp : g.Productive) :
    g.augmented.Productive := by
  intro n hn
  rcases List.mem_cons.mp hn with rfl | hn
  · obtain ⟨w, hw, hww⟩ := hp g.start hg.start_mem
    have hroot : g.augmented.Derives [g.freshStart] [g.start] :=
      Derives.of_rule (r := { id := 0, lhs := g.freshStart, body := [g.start] })
        (mem_rules_augmented.mpr (Or.inl rfl))
    exact ⟨w, hroot.trans hw.augmented, hww⟩
  · obtain ⟨w, hw, hww⟩ := hp n hn
    exact ⟨w, hw.augmented, hww⟩

end Grammar

end ShiftReduce
