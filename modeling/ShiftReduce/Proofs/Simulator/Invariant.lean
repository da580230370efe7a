import ShiftReduce.Proofs.Simulator.Effect

/-! # The invariant of a run — trees and input make up the input

    What a run has consumed is the word of the trees on its stack, so trees and
    remaining input always spell the whole input.  Every round adds a leaf for
    a token or an interior node, which counts the rounds.  The symbols of the
    shifts in a trace are the word of the trees. -/

namespace ShiftReduce

namespace Simulator

/-- The symbol that a step shifts. -/
def Step.shifted? (st : Step) : Option Symbol :=
  match st.move with
  | .shift x _ => some x
  | _ => none

/-- The symbols that the steps of a trace shift, in order. -/
def shifted (steps : List Step) : List Symbol :=
  steps.filterMap Step.shifted?

/-- Steps that come later shift what they shift. -/
theorem shifted_append (steps later : List Step) :
    shifted (steps ++ later) = shifted steps ++ shifted later :=
  List.filterMap_append

/-- What the first steps have shifted begins what all have. -/
theorem shifted_take (steps : List Step) (k : Nat) :
    shifted (steps.take k) <+: shifted steps := by
  have htake := List.take_prefix k steps
  exact htake.filterMap _

theorem Step.shifted?_of_reduce {st : Step} {r : Production} (h : st.move = .reduce r) :
    st.shifted? = none := by
  rw [Step.shifted?, h]

theorem Step.shifted?_of_goTo {st : Step} {r : Production} {j l : Int}
    (h : st.move = .goTo r j l) : st.shifted? = none := by
  rw [Step.shifted?, h]

theorem Step.shifted?_of_shift {st : Step} {x : Symbol} {l : Int} (h : st.move = .shift x l) :
    st.shifted? = some x := by
  rw [Step.shifted?, h]

/-- How a run of some rounds changes the trees and the input. -/
structure Progress (c : Configuration) (f : Forest) (n : Nat) (steps : List Step)
    (d : Configuration) (f' : Forest) : Prop where
  word : f'.word = f.word ++ shifted steps
  input : f'.word ++ d.rest.map Token.symbol = f.word ++ c.rest.map Token.symbol
  rounds : f'.word.length + f'.interiors = f.word.length + f.interiors + n

namespace Progress

variable {c d e : Configuration} {f f' f'' : Forest} {n m : Nat} {steps later : List Step}

/-- No round is no progress. -/
theorem refl (c : Configuration) (f : Forest) : Progress c f 0 [] c f where
  word := (List.append_nil _).symm
  input := rfl
  rounds := rfl

/-- Progress behind progress adds up. -/
theorem trans (h : Progress c f n steps d f') (h' : Progress d f' m later e f'') :
    Progress c f (n + m) (steps ++ later) e f'' where
  word := by rw [h'.word, h.word, shifted_append, List.append_assoc]
  input := h'.input.trans h.input
  rounds := by rw [h'.rounds, h.rounds, Nat.add_assoc]

end Progress

section Runs

variable {g : Grammar} {s : Symbol} {c d : Configuration} {k n : Nat} {f : Forest}
  {steps : List Step}

/-- One round keeps a configuration legal. -/
theorem Legal.goesOn (h : Table.Tabular g s) (hc : Legal g c k f)
    (hturn : turn g (Table.ofGrammar g) c = .goesOn steps d) :
    ∃ l f', Legal g d l f' ∧ Progress c f 1 steps d f' := by
  have heffect := turn_effect h hc
  rw [hturn] at heffect
  cases heffect with
  | @shift st _ l n hmove _ hrest hd hword hinteriors =>
      refine ⟨l, f ++ [n], hd, ?_, ?_, ?_⟩
      · simp [shifted, Step.shifted?_of_shift hmove, hword]
      · rw [hrest]
        simp [hword]
      · simp [hword, hinteriors]
        omega
  | @reduce f₁ f₂ st st' _ j l r n hf hmove hmove' _ _ hrest hd hn =>
      refine ⟨l, f₁ ++ [n], hd, ?_, ?_, ?_⟩
      · simp [shifted, Step.shifted?_of_reduce hmove, Step.shifted?_of_goTo hmove', hf, hn.word]
      · rw [hrest, hf]
        simp [hn.word]
      · simp [hf, hn.word, hn.interiors]
        omega

/-- A run keeps a configuration legal. -/
theorem Legal.runs (h : Table.Tabular g s) (hruns : Runs g (Table.ofGrammar g) n c steps d) :
    ∀ {k : Nat} {f : Forest}, Legal g c k f →
      ∃ l f', Legal g d l f' ∧ Progress c f n steps d f' := by
  induction hruns with
  | refl c =>
      intro k f hc
      exact ⟨k, f, hc, Progress.refl c f⟩
  | @step n c next d steps later hturn _ ih =>
      intro k f hc
      obtain ⟨l, f', hnext, hfirst⟩ := hc.goesOn h hturn
      obtain ⟨m, f'', hd, hrest⟩ := ih hnext
      refine ⟨m, f'', hd, ?_⟩
      rw [Nat.add_comm]
      exact hfirst.trans hrest

/-- The input that a step leaves is what the shifts up to it have left. -/
theorem Legal.step_rest (h : Table.Tabular g s) (hruns : Runs g (Table.ofGrammar g) n c steps d) :
    ∀ {k : Nat} {f : Forest}, Legal g c k f → ∀ (i : Nat) (st : Step), steps[i]? = some st →
      ∃ front, c.rest = front ++ st.rest ∧
        front.map Token.symbol = shifted (steps.take (i + 1)) := by
  induction hruns with
  | refl c =>
      intro k f hc i st hst
      exact nomatch hst
  | @step n c next d steps later hturn _ ih =>
      intro k f hc i st hst
      have heffect := turn_effect h hc
      rw [hturn] at heffect
      cases heffect with
      | @shift st₀ _ l node hmove hstep hrest hd hword hinteriors =>
          have hone := Step.shifted?_of_shift hmove
          cases i with
          | zero =>
              obtain rfl : st₀ = st := Option.some.inj hst
              exact ⟨[c.lookahead], by rw [hstep]; exact hrest, by simp [shifted, hone]⟩
          | succ i =>
              obtain ⟨front, hfront, hsymbols⟩ := ih hd i st hst
              refine ⟨c.lookahead :: front, by rw [hrest, hfront]; rfl, ?_⟩
              rw [List.map_cons, hsymbols]
              simp [shifted, hone]
      | @reduce f₁ f₂ st₀ st₁ _ j l r node hf hmove hmove' hstep hstep' hrest hd hn =>
          -- a reduction records two steps, and none of them moves the input
          have hnone := Step.shifted?_of_reduce hmove
          have hnone' := Step.shifted?_of_goTo hmove'
          match i with
          | 0 =>
              obtain rfl : st₀ = st := Option.some.inj hst
              exact ⟨[], by rw [hstep]; rfl, by simp [shifted, hnone]⟩
          | 1 =>
              obtain rfl : st₁ = st := Option.some.inj hst
              exact ⟨[], by rw [hstep']; rfl, by simp [shifted, hnone, hnone']⟩
          | i + 2 =>
              obtain ⟨front, hfront, hsymbols⟩ := ih hd i st hst
              refine ⟨front, by rw [← hrest]; exact hfront, ?_⟩
              rw [hsymbols]
              simp [shifted, hnone, hnone']

end Runs

/-! ## Runs that begin afresh -/

/-- The configuration at the beginning of a run on some tokens. -/
def Configuration.fresh (rest : List Token) (last : Token) : Configuration :=
  { stack := freshStack, rest, last, index := 0, builder := {} }

/-- A fresh configuration with closed tokens is legal, at state 0 and without trees. -/
theorem legal_fresh (g : Grammar) {rest : List Token} (last : Token)
    (h : ∃ e, rest.getLast? = some e ∧ e.symbol = Symbol.endMarker) :
    Legal g (Configuration.fresh rest last) 0 [] :=
  ⟨.bottom, rfl, h⟩

/-- The trees of a run that began afresh have its shifts as their word, spell the
    input together with the rest of it, and count the rounds. -/
theorem Progress.of_fresh {rest : List Token} {last : Token} {n : Nat} {steps : List Step}
    {d : Configuration} {f : Forest} (h : Progress (.fresh rest last) [] n steps d f) :
    f.word = shifted steps ∧ f.word ++ d.rest.map Token.symbol = rest.map Token.symbol ∧
      f.word.length + f.interiors = n :=
  ⟨h.word, h.input, by simpa using h.rounds⟩

/-- Tokens that do not end with an end marker get one. -/
theorem closeTokens_cases (tokens : List Token) :
    (closeTokens tokens = tokens ∧ ∃ e, tokens.getLast? = some e ∧ e.isEnd = true) ∨
      ∃ position, closeTokens tokens = tokens ++ [Token.endAt position] := by
  rw [closeTokens]
  cases hlast : tokens.getLast? with
  | none =>
      obtain rfl := List.getLast?_eq_none_iff.mp hlast
      exact Or.inr ⟨0, rfl⟩
  | some e =>
      dsimp only
      by_cases hend : e.isEnd = true
      · rw [if_pos hend]
        exact Or.inl ⟨rfl, e, rfl, hend⟩
      · rw [if_neg hend]
        exact Or.inr ⟨e.span.stop, rfl⟩

/-- Closing leaves an end marker at the end, wherever there was one. -/
theorem closeTokens_closed (tokens : List Token) :
    ∃ e, (closeTokens tokens).getLast? = some e ∧ e.symbol = Symbol.endMarker := by
  rcases closeTokens_cases tokens with ⟨heq, e, hlast, hend⟩ | ⟨position, heq⟩
  · rw [heq]
    exact ⟨e, hlast, by simpa [Token.isEnd] using hend⟩
  · rw [heq]
    exact ⟨Token.endAt position, by simp, rfl⟩

end Simulator

end ShiftReduce
