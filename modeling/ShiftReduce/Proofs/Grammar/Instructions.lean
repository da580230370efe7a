import Mathlib.Data.List.Induction
import Mathlib.Logic.Function.Basic
import ShiftReduce.Grammar.Builder

/-! # Instructions — what they say without a builder

    Instructions to a builder are read here on their own: which drafts are open
    (`desk`), in which roles symbols are used (`Uses`), which rules are asked for
    (`conclusions`) and which instructions are mistakes (`Offends`).  All of this
    is about an instruction together with those before it, and is taken along by
    induction on the last instruction (`somewhere_append_singleton`).  Without a
    mistake every draft mentions declarable symbols only, each in one role. -/

namespace ShiftReduce

namespace Grammar

/-- The drafts that are open, by name. -/
abbrev Desk := String → Option Draft

namespace Instruction

/-- The open drafts behind an instruction.  Finishing leaves a draft as it is. -/
def rearrange (ds : Desk) : Instruction → Desk
  | .head key s => Function.update ds key (some { lhs := s, body := [] })
  | .symbol key _ s =>
    Function.update ds key ((ds key).map fun d => { d with body := d.body ++ [s] })
  | .finish _ => ds
  | .finishEmpty key => Function.update ds key ((ds key).map fun d => { d with body := [] })

/-- The symbol that an instruction uses, with its role. -/
def use? (ds : Desk) : Instruction → Option (Symbol × Role)
  | .head _ s => some (s, .nonterminal)
  | .symbol key role s => (ds key).map fun _ => (s, role)
  | .finish _ => none
  | .finishEmpty _ => none

/-- The rule that an instruction asks for. -/
def conclusion? (ds : Desk) : Instruction → Option Draft
  | .head _ _ => none
  | .symbol _ _ _ => none
  | .finish key => ds key
  | .finishEmpty key => (ds key).map fun d => { d with body := [] }

end Instruction

/-- The open drafts behind some instructions. -/
def desk (is : List Instruction) : Desk :=
  is.foldl Instruction.rearrange fun _ => none

/-- The rules that instructions ask for, in order. -/
def conclusionsFrom (ds : Desk) : List Instruction → List Draft
  | [] => []
  | c :: cs => (c.conclusion? ds).toList ++ conclusionsFrom (c.rearrange ds) cs

/-- The rules that instructions ask for when there is no draft before. -/
def conclusions (is : List Instruction) : List Draft :=
  conclusionsFrom (fun _ => none) is

/-- Whether one of the instructions, together with those before it, is as asked
    for. -/
def Somewhere (p : List Instruction → Instruction → Prop) (is : List Instruction) : Prop :=
  ∃ before c after, is = before ++ c :: after ∧ p before c

/-- Whether instructions use a symbol in a role. -/
def Uses (is : List Instruction) (s : Symbol) (role : Role) : Prop :=
  Somewhere (fun before c => c.use? (desk before) = some (s, role)) is

/-- How an instruction can be a mistake, after the instructions before it. -/
inductive Offends (before : List Instruction) : Instruction → Defect → Prop where
  | undeclarable {c : Instruction} {s : Symbol} {role : Role}
      (huse : c.use? (desk before) = some (s, role)) (hs : s.isDeclarable = false) :
      Offends before c (.undeclarable s)
  | bothKinds {c : Instruction} {s : Symbol} {role other : Role}
      (huse : c.use? (desk before) = some (s, role)) (hother : Uses before s other)
      (hne : other ≠ role) : Offends before c (.bothKinds s)
  | epsilonAfterSymbols {key : String} {d : Draft} (hd : desk before key = some d)
      (hbody : d.body ≠ []) : Offends before (.finishEmpty key) (.epsilonAfterSymbols d.lhs)

/-- No instruction is a mistake. -/
def Faultless (is : List Instruction) : Prop :=
  ¬ Somewhere (fun before c => ∃ d, Offends before c d) is

/-- The first mistake among the instructions, with its defect. -/
def FirstOffence (is : List Instruction) (d : Defect) : Prop :=
  Somewhere (fun before c => Faultless before ∧ Offends before c d) is

/-- What a grammar takes over from instructions. -/
structure Records (is : List Instruction) (g : Grammar) : Prop where
  terminals : ∀ s, s ∈ g.terminals ↔ Uses is s .terminal
  nonterminals : ∀ s, s ∈ g.nonterminals ↔ Uses is s .nonterminal
  nodup_terminals : g.terminals.Nodup
  nodup_nonterminals : g.nonterminals.Nodup
  disjoint : ∀ s ∈ g.terminals, s ∉ g.nonterminals
  numbered : ∀ (n : Nat) (r : Production), g.rules[n]? = some r → r.id = n
  rules : g.rules.map (fun r => { lhs := r.lhs, body := r.body }) = conclusions is
  start : (conclusions is).head?.map Draft.lhs = some g.start

/-! ## One instruction more -/

/-- The last instruction rearranges the desk that the others have left. -/
theorem desk_append_singleton (is : List Instruction) (c : Instruction) :
    desk (is ++ [c]) = c.rearrange (desk is) := by
  rw [desk, List.foldl_append]
  rfl

/-- The last instruction concludes what the desk says that the others have left. -/
theorem conclusionsFrom_append_singleton (ds : Desk) (is : List Instruction) (c : Instruction) :
    conclusionsFrom ds (is ++ [c]) =
      conclusionsFrom ds is ++ (c.conclusion? (is.foldl Instruction.rearrange ds)).toList := by
  induction is generalizing ds with
  | nil => simp [conclusionsFrom]
  | cons i is ih =>
      show (i.conclusion? ds).toList ++ conclusionsFrom (i.rearrange ds) (is ++ [c]) = _
      rw [ih, ← List.append_assoc]
      rfl

/-- The same, beginning with the empty desk. -/
theorem conclusions_append_singleton (is : List Instruction) (c : Instruction) :
    conclusions (is ++ [c]) = conclusions is ++ (c.conclusion? (desk is)).toList :=
  conclusionsFrom_append_singleton _ is c

theorem somewhere_nil {p : List Instruction → Instruction → Prop} : ¬ Somewhere p [] := by
  rintro ⟨before, c, after, hnil, -⟩
  simp at hnil

/-- A place among the instructions is one before the last, or the last one. -/
theorem somewhere_append_singleton {p : List Instruction → Instruction → Prop}
    {is : List Instruction} {c : Instruction} :
    Somewhere p (is ++ [c]) ↔ Somewhere p is ∨ p is c := by
  constructor
  · rintro ⟨before, c', after, heq, hp⟩
    rcases List.eq_nil_or_concat after with rfl | ⟨after, last, rfl⟩
    · obtain ⟨rfl, hlast⟩ := List.append_inj' heq rfl
      obtain rfl : c = c' := List.cons.inj hlast |>.1
      exact Or.inr hp
    · have heq' : is ++ [c] = (before ++ c' :: after) ++ [last] := by simpa using heq
      obtain ⟨rfl, -⟩ := List.append_inj' heq' rfl
      exact Or.inl ⟨before, c', after, rfl, hp⟩
  · rintro (⟨before, c', after, rfl, hp⟩ | hp)
    · exact ⟨before, c', after ++ [c], by simp, hp⟩
    · exact ⟨is, c, [], rfl, hp⟩

/-- What stands somewhere stands there whatever comes behind. -/
theorem Somewhere.append {p : List Instruction → Instruction → Prop} {is : List Instruction}
    (h : Somewhere p is) (more : List Instruction) : Somewhere p (is ++ more) := by
  obtain ⟨before, c, after, rfl, hp⟩ := h
  exact ⟨before, c, after ++ more, by simp, hp⟩

theorem uses_append_singleton {is : List Instruction} {c : Instruction} {s : Symbol} {role : Role} :
    Uses (is ++ [c]) s role ↔ Uses is s role ∨ c.use? (desk is) = some (s, role) :=
  somewhere_append_singleton

/-- Faultless instructions are followed by one that does not offend. -/
theorem faultless_append_singleton {is : List Instruction} {c : Instruction} :
    Faultless (is ++ [c]) ↔ Faultless is ∧ ∀ d, ¬ Offends is c d := by
  rw [Faultless, somewhere_append_singleton, not_or, not_exists]
  exact Iff.rfl

/-- The first offence is one of those before, or the last instruction if all others are
    faultless. -/
theorem firstOffence_append_singleton {is : List Instruction} {c : Instruction} {d : Defect} :
    FirstOffence (is ++ [c]) d ↔ FirstOffence is d ∨ Faultless is ∧ Offends is c d :=
  somewhere_append_singleton

/-- Either no instruction is a mistake, or one of the mistakes is the first. -/
theorem faultless_or_firstOffence (is : List Instruction) :
    Faultless is ∨ ∃ d, FirstOffence is d := by
  induction is using List.reverseRecOn with
  | nil => exact Or.inl somewhere_nil
  | append_singleton is c ih =>
      rcases ih with hnone | ⟨d, hd⟩
      · by_cases hc : ∃ d, Offends is c d
        · obtain ⟨d, hd⟩ := hc
          exact Or.inr ⟨d, firstOffence_append_singleton.mpr (Or.inr ⟨hnone, hd⟩)⟩
        · exact Or.inl (faultless_append_singleton.mpr ⟨hnone, not_exists.mp hc⟩)
      · exact Or.inr ⟨d, hd.append [c]⟩

/-- Where there is an offence, the instructions are not faultless. -/
theorem FirstOffence.not_faultless {is : List Instruction} {d : Defect} (h : FirstOffence is d) :
    ¬ Faultless is := by
  obtain ⟨before, c, after, rfl, -, hd⟩ := h
  exact fun hnone => hnone ⟨before, c, after, rfl, d, hd⟩

/-! ## Mentioned symbols -/

/-- A draft mentions only symbols that are used: on its left side as a
    nonterminal, in its body in either role. -/
def Draft.Covered (is : List Instruction) (d : Draft) : Prop :=
  Uses is d.lhs .nonterminal ∧ ∀ s ∈ d.body, ∃ role, Uses is s role

/-- What is used stays used. -/
theorem Draft.Covered.append {is : List Instruction} {d : Draft} (h : d.Covered is)
    (more : List Instruction) : d.Covered (is ++ more) :=
  ⟨h.1.append more, fun s hs => (h.2 s hs).imp fun _ hrole => hrole.append more⟩

/-- All that stands in an open draft has been used. -/
theorem desk_covered {is : List Instruction} {key : String} {d : Draft}
    (h : desk is key = some d) : d.Covered is := by
  induction is using List.reverseRecOn generalizing key d with
  | nil => exact nomatch h
  | append_singleton is c ih =>
      rw [desk_append_singleton] at h
      -- the draft is the one from before unless the instruction names it
      cases c with
      | head key' s =>
          rw [Instruction.rearrange, Function.update_apply] at h
          split at h
          · obtain rfl := Option.some.inj h
            exact ⟨uses_append_singleton.mpr (Or.inr rfl), fun s hs => nomatch hs⟩
          · exact (ih h).append _
      | symbol key' role s =>
          rw [Instruction.rearrange, Function.update_apply] at h
          split at h
          · obtain ⟨d, hd, rfl⟩ := Option.map_eq_some_iff.mp h
            obtain ⟨hlhs, hbody⟩ := (ih hd).append [.symbol key' role s]
            refine ⟨hlhs, fun t ht => ?_⟩
            rcases List.mem_append.mp ht with ht | ht
            · exact hbody t ht
            · obtain rfl := List.mem_singleton.mp ht
              exact ⟨role, uses_append_singleton.mpr (Or.inr (by simp [Instruction.use?, hd]))⟩
          · exact (ih h).append _
      | finish key' => exact (ih h).append _
      | finishEmpty key' =>
          rw [Instruction.rearrange, Function.update_apply] at h
          split at h
          · obtain ⟨d, hd, rfl⟩ := Option.map_eq_some_iff.mp h
            exact ⟨(ih hd).1.append _, fun s hs => nomatch hs⟩
          · exact (ih h).append _

/-- All that stands in a rule that is asked for has been used. -/
theorem conclusion?_covered {is : List Instruction} {c : Instruction} {d : Draft}
    (h : c.conclusion? (desk is) = some d) : d.Covered is := by
  cases c with
  | head key s => exact nomatch h
  | symbol key role s => exact nomatch h
  | finish key => exact desk_covered h
  | finishEmpty key =>
      obtain ⟨d, hd, rfl⟩ := Option.map_eq_some_iff.mp h
      exact ⟨(desk_covered hd).1, fun s hs => nomatch hs⟩

/-- So it is with all rules that were asked for. -/
theorem conclusions_covered {is : List Instruction} :
    ∀ d ∈ conclusions is, d.Covered is := by
  induction is using List.reverseRecOn with
  | nil => exact fun d hd => nomatch hd
  | append_singleton is c ih =>
      intro d hd
      rw [conclusions_append_singleton] at hd
      rcases List.mem_append.mp hd with hd | hd
      · exact (ih d hd).append _
      · exact (conclusion?_covered (Option.mem_toList.mp hd)).append _

/-- Without a mistake, only symbols that can be declared are used. -/
theorem Faultless.isDeclarable {is : List Instruction} (h : Faultless is) {s : Symbol}
    {role : Role} (hs : Uses is s role) : s.isDeclarable = true := by
  rw [← Bool.not_eq_false]
  intro hno
  obtain ⟨before, c, after, rfl, huse⟩ := hs
  exact h ⟨before, c, after, rfl, _, .undeclarable huse hno⟩

/-- Without a mistake, no symbol is used in both roles. -/
theorem Faultless.role_unique {is : List Instruction} (h : Faultless is) {s : Symbol}
    {role other : Role} (hs : Uses is s role) (hother : Uses is s other) : role = other := by
  induction is using List.reverseRecOn with
  | nil => exact absurd hs somewhere_nil
  | append_singleton is c ih =>
      obtain ⟨hfront, hlast⟩ := faultless_append_singleton.mp h
      rcases uses_append_singleton.mp hs with hs | hs <;>
        rcases uses_append_singleton.mp hother with hother | hother
      · exact ih hfront hs hother
      · by_contra hne
        exact hlast _ (.bothKinds hother hs hne)
      · by_contra hne
        exact hlast _ (.bothKinds hs hother (Ne.symm hne))
      · exact (Prod.ext_iff.mp (Option.some.inj (hs.symm.trans hother))).2

/-- An instruction after faultless ones is a mistake in one way only. -/
theorem Offends.unique {before : List Instruction} {c : Instruction} {d d' : Defect}
    (hbefore : Faultless before) (h : Offends before c d) (h' : Offends before c d') : d = d' := by
  -- a symbol that cannot be declared has not been used before, in either role
  cases h with
  | undeclarable huse hs =>
      cases h' with
      | undeclarable huse' hs' =>
          obtain ⟨rfl, -⟩ := Prod.mk.inj (Option.some.inj (huse.symm.trans huse'))
          rfl
      | bothKinds huse' hother' hne' =>
          obtain ⟨rfl, -⟩ := Prod.mk.inj (Option.some.inj (huse.symm.trans huse'))
          exact absurd (hbefore.isDeclarable hother') (by simp [hs])
      | epsilonAfterSymbols => exact nomatch huse
  | bothKinds huse hother hne =>
      cases h' with
      | undeclarable huse' hs' =>
          obtain ⟨rfl, -⟩ := Prod.mk.inj (Option.some.inj (huse.symm.trans huse'))
          exact absurd (hbefore.isDeclarable hother) (by simp [hs'])
      | bothKinds huse' hother' hne' =>
          obtain ⟨rfl, -⟩ := Prod.mk.inj (Option.some.inj (huse.symm.trans huse'))
          rfl
      | epsilonAfterSymbols => exact nomatch huse
  | epsilonAfterSymbols hd hbody =>
      cases h' with
      | undeclarable huse' => exact nomatch huse'
      | bothKinds huse' => exact nomatch huse'
      | epsilonAfterSymbols hd' hbody' => rw [Option.some.inj (hd.symm.trans hd')]

/-- There is one first offence, and it has one defect. -/
theorem FirstOffence.unique {is : List Instruction} {d d' : Defect} (h : FirstOffence is d)
    (h' : FirstOffence is d') : d = d' := by
  induction is using List.reverseRecOn with
  | nil => exact absurd h somewhere_nil
  | append_singleton is c ih =>
      rcases firstOffence_append_singleton.mp h with h | ⟨hbefore, hd⟩ <;>
        rcases firstOffence_append_singleton.mp h' with h' | ⟨hbefore', hd'⟩
      · exact ih h h'
      · exact absurd hbefore' h.not_faultless
      · exact absurd hbefore h'.not_faultless
      · exact hd.unique hbefore hd'

/-- Mistakes in plain words, without their order. -/
theorem not_faultless_iff {is : List Instruction} :
    ¬ Faultless is ↔
      (∃ s role, Uses is s role ∧ s.isDeclarable = false) ∨
      (∃ s, Uses is s .terminal ∧ Uses is s .nonterminal) ∨
      Somewhere (fun before c => ∃ key d, c = .finishEmpty key ∧ desk before key = some d ∧
        d.body ≠ []) is := by
  constructor
  · intro h
    obtain ⟨before, c, after, rfl, d, hd⟩ := not_not.mp h
    cases hd with
    | undeclarable huse hs => exact Or.inl ⟨_, _, ⟨before, c, after, rfl, huse⟩, hs⟩
    | @bothKinds _ s role other huse hother hne =>
        have hc : Uses (before ++ c :: after) s role := ⟨before, c, after, rfl, huse⟩
        have hbefore := hother.append (c :: after)
        -- two different roles are one of each kind, in either order
        cases role <;> cases other
        · exact absurd rfl hne
        · exact Or.inr (Or.inl ⟨s, hc, hbefore⟩)
        · exact Or.inr (Or.inl ⟨s, hbefore, hc⟩)
        · exact absurd rfl hne
    | epsilonAfterSymbols hd hbody =>
        exact Or.inr (Or.inr ⟨before, _, after, rfl, _, _, rfl, hd, hbody⟩)
  · rintro (⟨s, role, hs, hno⟩ | ⟨s, ht, hn⟩ | ⟨before, c, after, rfl, key, d, rfl, hd, hbody⟩) h
    · exact absurd (h.isDeclarable hs) (by simp [hno])
    · exact nomatch h.role_unique ht hn
    · exact h ⟨before, _, after, rfl, _, .epsilonAfterSymbols hd hbody⟩

end Grammar

end ShiftReduce
