import ShiftReduce.Proofs.Grammar.Assembly
import ShiftReduce.Proofs.Grammar.Instructions

/-! # Building — which instructions make a grammar

    A builder is compared with what its instructions say.  It forgets all
    declarations behind the first mistake and goes on with its drafts and rules,
    so its record of roles is exact only up to there (`Judged`), while drafts and
    rules are exact always; both together are `Holds`, which one instruction keeps
    (`Holds.carryOut`).  What an instruction does is said once (`Effect`).  A
    builder without a mistake passes all checks of `Grammar.assemble`, since it
    declares whatever its rules mention. -/

namespace ShiftReduce

namespace Grammar

namespace Builder

/-- The open drafts of a builder. -/
def desk (b : Builder) : Desk := fun key => b.drafts.lookup key

/-- The rules that a builder returns while it carries out instructions. -/
def returned (b : Builder) : List Instruction → List Production
  | [] => []
  | c :: cs => (b.carryOut c).2.toList ++ (b.carryOut c).1.returned cs

/-- Blame concerns only the mistake. -/
theorem blame_eq (b : Builder) (d : Defect) :
    ∃ mistake, b.blame d = { b with mistake := mistake } := by
  rw [blame]
  split
  · exact ⟨b.mistake, rfl⟩
  · exact ⟨some d, rfl⟩

/-- A use concerns only the roles and the mistake. -/
theorem use_eq (b : Builder) (s : Symbol) (role : Role) :
    ∃ roles mistake, b.use s role = { b with roles := roles, mistake := mistake } := by
  rw [use]
  split
  · exact ⟨b.roles, b.mistake, rfl⟩
  · split
    · exact ⟨b.roles, blame_eq b _⟩
    · split
      · split
        · exact ⟨b.roles, b.mistake, rfl⟩
        · exact ⟨b.roles, blame_eq b _⟩
      · exact ⟨_, b.mistake, rfl⟩

/-- Putting a draft aside under a key changes the desk there only. -/
theorem desk_putDraft (b : Builder) (key : String) (d : Draft) :
    (b.putDraft key d).desk = Function.update b.desk key (some d) := by
  funext k
  rw [Function.update_apply]
  show ((key, d) :: b.drafts.filter fun e => e.1 != key).lookup k = _
  rw [List.lookup_cons]
  by_cases hk : k = key
  · simp [hk]
  · rw [if_neg hk, show (k == key) = false from beq_eq_false_iff_ne.mpr hk]
    -- dropping the entries of another key changes nothing
    show (b.drafts.filter fun e => e.1 != key).lookup k = b.drafts.lookup k
    induction b.drafts with
    | nil => rfl
    | cons e es ih =>
        by_cases he : e.1 = key
        · have hek : (k == e.1) = false := beq_eq_false_iff_ne.mpr (by rw [he]; exact hk)
          rw [List.filter_cons_of_neg (by simp [he]), ih, List.lookup_cons, hek]
        · rw [List.filter_cons_of_pos (by simpa using he), List.lookup_cons, List.lookup_cons, ih]

/-! ## One instruction carried out -/

/-- What carrying out an instruction comes to.  It is idle if its draft was never
    started. -/
inductive Effect (b : Builder) : Instruction → Builder × Option Production → Prop where
  | head (key : String) (s : Symbol) {roles : List (Symbol × Role)} {mistake : Option Defect}
      (huse : b.use s .nonterminal = { b with roles := roles, mistake := mistake }) :
      Effect b (.head key s)
        (({ b with roles := roles, mistake := mistake }).putDraft key { lhs := s, body := [] }, none)
  | symbol {key : String} (role : Role) (s : Symbol) {d : Draft} {roles : List (Symbol × Role)}
      {mistake : Option Defect} (hd : b.desk key = some d)
      (huse : b.use s role = { b with roles := roles, mistake := mistake }) :
      Effect b (.symbol key role s)
        (({ b with roles := roles, mistake := mistake }).putDraft key
          { d with body := d.body ++ [s] }, none)
  | finish {key : String} {d : Draft} (hd : b.desk key = some d) :
      Effect b (.finish key) (b.conclude d)
  | finishEmpty {key : String} {d : Draft} {mistake : Option Defect} (hd : b.desk key = some d)
      (hempty : d.body = [] → mistake = b.mistake)
      (hblame : d.body ≠ [] →
        b.blame (.epsilonAfterSymbols d.lhs) = { b with mistake := mistake }) :
      Effect b (.finishEmpty key)
        ((({ b with mistake := mistake }).putDraft key { d with body := [] }).conclude
          { d with body := [] })
  | idle {c : Instruction} (hdesk : c.rearrange b.desk = b.desk) (huse : c.use? b.desk = none)
      (hconclusion : c.conclusion? b.desk = none)
      (hempty : ∀ key d, c = .finishEmpty key → b.desk key ≠ some d) : Effect b c (b, none)

/-- Every instruction has one of the effects. -/
theorem effect_carryOut (b : Builder) (c : Instruction) : Effect b c (b.carryOut c) := by
  -- one case for each instruction; without a draft of that key nothing happens
  cases c with
  | head key s =>
      obtain ⟨roles, mistake, huse⟩ := b.use_eq s .nonterminal
      rw [carryOut, huse]
      exact .head key s huse
  | symbol key role s =>
      cases hd : b.desk key with
      | none =>
          rw [carryOut, show b.drafts.lookup key = none from hd]
          exact .idle (by simp [Instruction.rearrange, hd]) (by simp [Instruction.use?, hd]) rfl
            (by rintro _ _ ⟨⟩)
      | some d =>
          obtain ⟨roles, mistake, huse⟩ := b.use_eq s role
          rw [carryOut, show b.drafts.lookup key = some d from hd]
          show Effect b _ ((b.use s role).putDraft key _, none)
          rw [huse]
          exact .symbol role s hd huse
  | finish key =>
      cases hd : b.desk key with
      | none =>
          rw [carryOut, show b.drafts.lookup key = none from hd]
          exact .idle rfl rfl hd (by rintro _ _ ⟨⟩)
      | some d =>
          rw [carryOut, show b.drafts.lookup key = some d from hd]
          exact .finish hd
  | finishEmpty key =>
      cases hd : b.desk key with
      | none =>
          rw [carryOut, show b.drafts.lookup key = none from hd]
          refine .idle (by simp [Instruction.rearrange, hd]) rfl
            (by simp [Instruction.conclusion?, hd]) ?_
          rintro _ d ⟨⟩
          simp [hd]
      | some d =>
          obtain ⟨mistake, hblame⟩ := b.blame_eq (.epsilonAfterSymbols d.lhs)
          rw [carryOut, show b.drafts.lookup key = some d from hd]
          -- blame falls only on a draft that has symbols already
          show Effect b _ (((if d.body.isEmpty then b else b.blame _).putDraft key _).conclude _)
          cases hbody : d.body with
          | nil => exact .finishEmpty hd (fun _ => rfl) (fun hne => absurd hbody hne)
          | cons s ss =>
              show Effect b _ (((b.blame _).putDraft key _).conclude _)
              rw [hblame]
              exact .finishEmpty hd (fun hnil => by simp [hbody] at hnil) (fun _ => hblame)

namespace Effect

variable {b : Builder} {c : Instruction} {r : Builder × Option Production}

/-- The drafts are rearranged as the instruction says. -/
theorem desk_eq (h : Effect b c r) : r.1.desk = c.rearrange b.desk := by
  cases h with
  | head key s huse => exact desk_putDraft _ _ _
  | symbol role s hd huse =>
      rw [Instruction.rearrange, hd]
      exact desk_putDraft _ _ _
  | finish hd => rfl
  | finishEmpty hd hempty hblame =>
      rw [Instruction.rearrange, hd]
      exact desk_putDraft _ _ _
  | idle hdesk huse hconclusion hempty => exact hdesk.symm

/-- The rule that is asked for is returned under the next number. -/
theorem returned_eq (h : Effect b c r) : r.2 = (c.conclusion? b.desk).map fun d =>
    Production.ofWritten b.rules.length d.lhs d.body := by
  cases h with
  | head key s huse => rfl
  | symbol role s hd huse => rfl
  | finish hd =>
      rw [Instruction.conclusion?, hd]
      rfl
  | finishEmpty hd hempty hblame =>
      rw [Instruction.conclusion?, hd]
      rfl
  | idle hdesk huse hconclusion hempty => rw [hconclusion, Option.map_none]

/-- The rules that are returned are the ones that are collected. -/
theorem rules_eq (h : Effect b c r) : r.1.rules = b.rules ++ r.2.toList := by
  cases h with
  | head key s huse => exact (List.append_nil _).symm
  | symbol role s hd huse => exact (List.append_nil _).symm
  | finish hd => rfl
  | finishEmpty hd hempty hblame => rfl
  | idle hdesk huse hconclusion hempty => exact (List.append_nil _).symm

theorem name_eq (h : Effect b c r) : r.1.name = b.name := by
  cases h <;> rfl

end Effect

/-! ## The record of roles and mistakes -/

/-- A builder without a mistake knows in which roles symbols are used, and a
    mistake is the first one among the instructions. -/
def Judged (is : List Instruction) (b : Builder) : Prop :=
  match b.mistake with
  | none => Faultless is ∧ (∀ s role, (s, role) ∈ b.roles ↔ Uses is s role) ∧
      (b.roles.map Prod.fst).Nodup
  | some d => FirstOffence is d

/-- A builder without a mistake has used every symbol in one role, and all its
    instructions are faultless. -/
theorem judged_none {is : List Instruction} {b : Builder} (h : b.mistake = none) :
    Judged is b ↔ Faultless is ∧ (∀ s role, (s, role) ∈ b.roles ↔ Uses is s role) ∧
      (b.roles.map Prod.fst).Nodup := by
  rw [Judged, h]

/-- The mistake of a builder is the first offence among its instructions. -/
theorem judged_some {is : List Instruction} {b : Builder} {d : Defect} (h : b.mistake = some d) :
    Judged is b ↔ FirstOffence is d := by
  rw [Judged, h]

/-- A mistake is noted if there has been none. -/
theorem blame_of_none {b : Builder} (h : b.mistake = none) (d : Defect) :
    b.blame d = { b with mistake := some d } := by
  rw [blame, h]

theorem blame_of_some {b : Builder} {d : Defect} (h : b.mistake = some d) (d' : Defect) :
    b.blame d' = b := by
  rw [blame, h]

/-- A mistake after none is the first. -/
theorem Judged.blame {is : List Instruction} {b : Builder} {c : Instruction} {d : Defect}
    (h : Judged is b) (hd : Offends is c d) : Judged (is ++ [c]) (b.blame d) := by
  cases hm : b.mistake with
  | none =>
      rw [blame_of_none hm]
      exact firstOffence_append_singleton.mpr (Or.inr ⟨((judged_none hm).mp h).1, hd⟩)
  | some d' =>
      rw [blame_of_some hm]
      exact (judged_some hm).mpr (((judged_some hm).mp h).append [c])

/-- An instruction that uses no symbol and leaves no body behind is no mistake. -/
theorem Judged.keep {is : List Instruction} {b : Builder} {c : Instruction} (h : Judged is b)
    (huse : c.use? (Grammar.desk is) = none)
    (hempty : ∀ key d, c = .finishEmpty key → Grammar.desk is key = some d → d.body = []) :
    Judged (is ++ [c]) b := by
  cases hm : b.mistake with
  | none =>
      obtain ⟨hfaultless, hroles, hnodup⟩ := (judged_none hm).mp h
      refine (judged_none hm).mpr ⟨faultless_append_singleton.mpr ⟨hfaultless, ?_⟩, ?_, hnodup⟩
      · intro d hd
        cases hd with
        | undeclarable huse' hs => exact nomatch huse.symm.trans huse'
        | bothKinds huse' hother hne => exact nomatch huse.symm.trans huse'
        | epsilonAfterSymbols hd hbody => exact hbody (hempty _ _ rfl hd)
      · intro s role
        rw [hroles, uses_append_singleton, huse]
        simp
  | some d => exact (judged_some hm).mpr (((judged_some hm).mp h).append [c])

/-- Using a reserved or empty name is a mistake. -/
theorem use_of_undeclarable {b : Builder} {s : Symbol} (hm : b.mistake = none)
    (hs : s.isDeclarable = false) (role : Role) :
    b.use s role = b.blame (.undeclarable s) := by
  rw [Builder.use, if_neg (by simp [hm]), if_pos (by simp [hs])]

/-- A known symbol may be used again in its role; in the other one that is a mistake. -/
theorem use_of_known {b : Builder} {s : Symbol} {r : Role} (hm : b.mistake = none)
    (hs : s.isDeclarable = true) (hr : b.roles.lookup s = some r) (role : Role) :
    b.use s role = if r = role then b else b.blame (.bothKinds s) := by
  rw [Builder.use, if_neg (by simp [hm]), if_neg (by simp [hs]), hr]

/-- A symbol that is used for the first time gets its role. -/
theorem use_of_new {b : Builder} {s : Symbol} (hm : b.mistake = none)
    (hs : s.isDeclarable = true) (hr : b.roles.lookup s = none) (role : Role) :
    b.use s role = { b with roles := b.roles ++ [(s, role)] } := by
  rw [Builder.use, if_neg (by simp [hm]), if_neg (by simp [hs]), hr]

section Use

variable {is : List Instruction} {b : Builder} {c : Instruction} {s : Symbol} {role : Role}

/-- A use of a declarable symbol that has no other role is no mistake. -/
theorem faultless_append_use (h : Faultless is) (huse : c.use? (Grammar.desk is) = some (s, role))
    (hs : s.isDeclarable = true) (hsame : ∀ other, Uses is s other → other = role) :
    Faultless (is ++ [c]) := by
  refine faultless_append_singleton.mpr ⟨h, ?_⟩
  intro d hd
  cases hd with
  | undeclarable huse' hno =>
      obtain ⟨rfl, -⟩ := Prod.mk.inj (Option.some.inj (huse.symm.trans huse'))
      exact absurd hs (by simp [hno])
  | bothKinds huse' hother hne =>
      obtain ⟨rfl, rfl⟩ := Prod.mk.inj (Option.some.inj (huse.symm.trans huse'))
      exact hne (hsame _ hother)
  | epsilonAfterSymbols => exact nomatch huse

/-- One more use adds its symbol in its role, and nothing else. -/
theorem uses_append_use (huse : c.use? (Grammar.desk is) = some (s, role))
    (hroles : ∀ t other, (t, other) ∈ b.roles ↔ Uses is t other) (t : Symbol) (other : Role) :
    Uses (is ++ [c]) t other ↔ (t, other) ∈ b.roles ∨ (t, other) = (s, role) := by
  rw [uses_append_singleton, huse, hroles, Option.some.injEq, eq_comm (a := (s, role))]

/-- The first use of a symbol is recorded. -/
theorem Judged.use_first (h : Judged is b) (hm : b.mistake = none)
    (huse : c.use? (Grammar.desk is) = some (s, role)) (hs : s.isDeclarable = true)
    (hnew : ∀ other, (s, other) ∉ b.roles) :
    Judged (is ++ [c]) { b with roles := b.roles ++ [(s, role)] } := by
  obtain ⟨hfaultless, hroles, hnodup⟩ := (judged_none hm).mp h
  refine (judged_none (b := { b with roles := b.roles ++ [(s, role)] }) hm).mpr
    ⟨faultless_append_use hfaultless huse hs ?_, ?_, ?_⟩
  · exact fun other hother => absurd ((hroles s other).mpr hother) (hnew other)
  · intro t other
    rw [uses_append_use huse hroles, List.mem_append, List.mem_singleton]
  · rw [List.map_append, List.map_singleton, List.nodup_append]
    refine ⟨hnodup, List.nodup_singleton s, ?_⟩
    rintro t ht _ hs' rfl
    obtain rfl := List.mem_singleton.mp hs'
    obtain ⟨⟨t, other⟩, hmem, rfl⟩ := List.mem_map.mp ht
    exact hnew other hmem

/-- Another use of a symbol in its role changes nothing. -/
theorem Judged.use_again (h : Judged is b) (hm : b.mistake = none)
    (huse : c.use? (Grammar.desk is) = some (s, role)) (hs : s.isDeclarable = true)
    (hmem : (s, role) ∈ b.roles) : Judged (is ++ [c]) b := by
  obtain ⟨hfaultless, hroles, hnodup⟩ := (judged_none hm).mp h
  refine (judged_none hm).mpr ⟨faultless_append_use hfaultless huse hs ?_, ?_, hnodup⟩
  · exact fun other hother => hfaultless.role_unique hother ((hroles s role).mp hmem)
  · intro t other
    rw [uses_append_use huse hroles]
    refine ⟨Or.inl, ?_⟩
    rintro (hold | heq)
    · exact hold
    · rw [heq]
      exact hmem

/-- A use is recorded, or it is the first mistake. -/
theorem Judged.use (h : Judged is b) (huse : c.use? (Grammar.desk is) = some (s, role)) :
    Judged (is ++ [c]) (b.use s role) := by
  -- the branches of `use`: latched, not to be declared,
  -- new, known in the same or in the other role
  cases hm : b.mistake with
  | some d =>
      rw [Builder.use, if_pos (by simp [hm])]
      exact (judged_some hm).mpr (((judged_some hm).mp h).append [c])
  | none =>
      cases hs : s.isDeclarable with
      | false =>
          rw [use_of_undeclarable hm hs]
          exact h.blame (.undeclarable huse hs)
      | true =>
          cases hlookup : b.roles.lookup s with
          | none =>
              rw [use_of_new hm hs hlookup]
              refine h.use_first hm huse hs ?_
              intro other hmem
              simpa using List.lookup_eq_none_iff.mp hlookup _ hmem
          | some r =>
              obtain ⟨front, back, hsplit, -⟩ := List.lookup_eq_some_iff.mp hlookup
              have hmem : (s, r) ∈ b.roles := by simp [hsplit]
              rw [use_of_known hm hs hlookup]
              by_cases hr : r = role
              · subst hr
                rw [if_pos rfl]
                exact h.use_again hm huse hs hmem
              · rw [if_neg hr]
                have hused : Uses is s r := (((judged_none hm).mp h).2.1 s r).mp hmem
                exact h.blame (.bothKinds huse hused hr)

end Use

/-- What a builder holds after some instructions. -/
structure Holds (is : List Instruction) (b : Builder) : Prop where
  drafts : b.desk = Grammar.desk is
  rules : b.rules = (conclusions is).mapIdx fun n d => Production.ofWritten n d.lhs d.body
  judged : Judged is b

/-- One instruction keeps it. -/
theorem Holds.carryOut {is : List Instruction} {b : Builder} (h : Holds is b) (c : Instruction) :
    Holds (is ++ [c]) (b.carryOut c).1 := by
  have heffect := b.effect_carryOut c
  generalize b.carryOut c = r at heffect ⊢
  refine ⟨?_, ?_, ?_⟩
  · rw [heffect.desk_eq, h.drafts, desk_append_singleton]
  · rw [heffect.rules_eq, heffect.returned_eq, h.drafts, conclusions_append_singleton,
      List.mapIdx_append, h.rules, List.length_mapIdx]
    cases c.conclusion? (Grammar.desk is) with
    | none => rfl
    | some d => simp
  · -- drafts and rules follow from the effect; who is to blame depends on the instruction
    cases heffect with
    | head key s huse =>
        have hnext := h.judged.use (c := .head key s) rfl
        rwa [huse] at hnext
    | @symbol key role s d roles mistake hd huse =>
        rw [h.drafts] at hd
        have hnext : Judged (is ++ [.symbol key role s]) (b.use s role) :=
          h.judged.use (by simp [Instruction.use?, hd])
        rwa [huse] at hnext
    | finish hd => exact h.judged.keep rfl (by rintro _ _ ⟨⟩)
    | @finishEmpty key d mistake hd hempty hblame =>
        rw [h.drafts] at hd
        by_cases hbody : d.body = []
        · obtain rfl := hempty hbody
          refine h.judged.keep rfl ?_
          rintro _ d' ⟨⟩ hd'
          obtain rfl := Option.some.inj (hd.symm.trans hd')
          exact hbody
        · have hnext := h.judged.blame (.epsilonAfterSymbols hd hbody)
          rwa [hblame hbody] at hnext
    | idle hdesk huse hconclusion hempty =>
        rw [h.drafts] at huse hempty
        exact h.judged.keep huse (fun key d hc hd => absurd hd (hempty key d hc))

/-- A builder holds what its instructions say, from the empty one on. -/
theorem holds_ofInstructions (name : String) (is : List Instruction) :
    Holds is (ofInstructions name is) := by
  induction is using List.reverseRecOn with
  | nil =>
      refine ⟨rfl, rfl, somewhere_nil, ?_, List.nodup_nil⟩
      exact fun s role => ⟨(nomatch ·), fun h => absurd h somewhere_nil⟩
  | append_singleton is c ih =>
      rw [ofInstructions, List.foldl_append]
      exact ih.carryOut c

/-- One more instruction returns its own rule behind those before it. -/
theorem returned_append_singleton (b : Builder) (is : List Instruction) (c : Instruction) :
    b.returned (is ++ [c]) =
      b.returned is ++ ((is.foldl (fun b i => (b.carryOut i).1) b).carryOut c).2.toList := by
  induction is generalizing b with
  | nil => simp [returned]
  | cons i is ih =>
      show (b.carryOut i).2.toList ++ (b.carryOut i).1.returned (is ++ [c]) = _
      rw [ih, ← List.append_assoc]
      rfl

/-- A builder collects the rules that it returns. -/
theorem rules_ofInstructions (name : String) (is : List Instruction) :
    (ofInstructions name is).rules = ({ name } : Builder).returned is ∧
      (ofInstructions name is).name = name := by
  induction is using List.reverseRecOn with
  | nil => exact ⟨rfl, rfl⟩
  | append_singleton is c ih =>
      have heffect := (ofInstructions name is).effect_carryOut c
      rw [returned_append_singleton, ofInstructions, List.foldl_append]
      exact ⟨heffect.rules_eq.trans (by rw [ih.1]; rfl), heffect.name_eq.trans ih.2⟩

/-! ## The grammar of a builder -/

/-- A role has the symbols that were given it. -/
theorem mem_symbolsIn {b : Builder} {s : Symbol} {role : Role} :
    s ∈ b.symbolsIn role ↔ (s, role) ∈ b.roles := by
  simp [symbolsIn]

theorem nodup_symbolsIn {b : Builder} (h : (b.roles.map Prod.fst).Nodup) (role : Role) :
    (b.symbolsIn role).Nodup :=
  h.sublist (List.filter_sublist.map Prod.fst)

/-- The rules of a faultless builder say what the drafts say. -/
theorem ofWritten_of_covered {is : List Instruction} {d : Draft} (h : Faultless is)
    (hd : d.Covered is) (id : Int) :
    Production.ofWritten id d.lhs d.body = { id := id, lhs := d.lhs, body := d.body } := by
  rw [Production.ofWritten, if_neg]
  intro hbody
  obtain ⟨role, hrole⟩ := hd.2 Symbol.epsilon (by simp [hbody])
  exact absurd (h.isDeclarable hrole) (by decide)

/-- A builder has a mistake just if there is one among its instructions, and then
    it is the first. -/
theorem Holds.mistake_eq_some_iff {is : List Instruction} {b : Builder} (h : Holds is b)
    {d : Defect} : b.mistake = some d ↔ FirstOffence is d := by
  cases hm : b.mistake with
  | none =>
      refine ⟨(nomatch ·), fun hd => ?_⟩
      exact absurd ((judged_none hm).mp h.judged).1 hd.not_faultless
  | some d' =>
      have hd' := (judged_some hm).mp h.judged
      refine ⟨?_, fun hd => ?_⟩
      · rintro ⟨⟩
        exact hd'
      · rw [FirstOffence.unique hd hd']

/-- Faultless instructions leave a builder without a mistake. -/
theorem Holds.mistake_eq_none {is : List Instruction} {b : Builder} (h : Holds is b)
    (hfaultless : Faultless is) : b.mistake = none := by
  rw [Option.eq_none_iff_forall_ne_some]
  exact fun d hd => (h.mistake_eq_some_iff.mp hd).not_faultless hfaultless

/-- The parts of a builder, as a grammar. -/
def parts (b : Builder) (start : Symbol) : Grammar :=
  { name := b.name, start, terminals := b.symbolsIn .terminal,
    nonterminals := b.symbolsIn .nonterminal, rules := b.rules }

namespace Holds

variable {is : List Instruction} {b : Builder}

/-- The rules of a builder without a mistake are those that were asked for. -/
theorem getElem?_rules (h : Holds is b) (hfaultless : Faultless is) (n : Nat) :
    b.rules[n]? = (conclusions is)[n]?.map fun d =>
      { id := n, lhs := d.lhs, body := d.body } := by
  rw [h.rules, List.getElem?_mapIdx]
  refine Option.map_congr fun d hd => ?_
  exact ofWritten_of_covered hfaultless (conclusions_covered d (List.mem_of_getElem? hd)) n

/-- Without a mistake the rules are numbered by their places. -/
theorem id_eq (h : Holds is b) (hfaultless : Faultless is) {n : Nat} {r : Production}
    (hr : b.rules[n]? = some r) : r.id = n := by
  obtain ⟨d, -, rfl⟩ := Option.map_eq_some_iff.mp ((h.getElem?_rules hfaultless n).symm.trans hr)
  rfl

/-- Without a mistake every symbol of a rule has been used. -/
theorem rule_covered (h : Holds is b) (hfaultless : Faultless is) {r : Production}
    (hr : r ∈ b.rules) : Draft.Covered is { lhs := r.lhs, body := r.body } := by
  obtain ⟨n, hn⟩ := List.mem_iff_getElem?.mp hr
  obtain ⟨d, hd, rfl⟩ := Option.map_eq_some_iff.mp ((h.getElem?_rules hfaultless n).symm.trans hn)
  exact conclusions_covered d (List.mem_of_getElem? hd)

/-- A builder without a mistake knows each symbol in the role that it is used in. -/
theorem mem_symbolsIn_iff (h : Holds is b) (hfaultless : Faultless is) (s : Symbol) (role : Role) :
    s ∈ b.symbolsIn role ↔ Uses is s role :=
  mem_symbolsIn.trans
    (((judged_none (h.mistake_eq_none hfaultless)).mp h.judged).2.1 s role)

/-- The parts of a builder without a mistake pass all checks. -/
theorem checked_parts (h : Holds is b) (hfaultless : Faultless is) {start : Symbol}
    (hstart : Uses is start .nonterminal) : (b.parts start).Checked := by
  have hmem := h.mem_symbolsIn_iff hfaultless
  refine
    { numbered := fun n r hr => h.id_eq hfaultless hr, declarable := ?_,
      start_mem := (hmem _ _).mpr hstart, lhs_mem := ?_, body_mem := ?_ }
  · rintro s (hs | hs)
    · exact hfaultless.isDeclarable ((hmem s _).mp hs)
    · exact hfaultless.isDeclarable ((hmem s _).mp hs)
  · exact fun r hr => (hmem _ _).mpr (h.rule_covered hfaultless hr).1
  · intro r hr s hs
    obtain ⟨role, hrole⟩ := (h.rule_covered hfaultless hr).2 s hs
    cases role with
    | terminal => exact Or.inl ((hmem s _).mpr hrole)
    | nonterminal => exact Or.inr ((hmem s _).mpr hrole)

/-- They record what the instructions say. -/
theorem records_parts (h : Holds is b) (hfaultless : Faultless is) {start : Symbol}
    (hstart : (conclusions is).head?.map Draft.lhs = some start) : Records is (b.parts start) := by
  have hmem := h.mem_symbolsIn_iff hfaultless
  have hnodup := ((judged_none (h.mistake_eq_none hfaultless)).mp h.judged).2.2
  refine
    { terminals := fun s => hmem s _, nonterminals := fun s => hmem s _,
      nodup_terminals := nodup_symbolsIn hnodup _, nodup_nonterminals := nodup_symbolsIn hnodup _,
      disjoint := ?_, numbered := fun n r hr => h.id_eq hfaultless hr, rules := ?_,
      start := hstart }
  · intro s ht hn
    exact nomatch hfaultless.role_unique ((hmem s _).mp ht) ((hmem s _).mp hn)
  · refine List.ext_getElem? fun n => ?_
    show (b.rules.map _)[n]? = _
    rw [List.getElem?_map, h.getElem?_rules hfaultless, Option.map_map]
    cases (conclusions is)[n]? <;> rfl

/-- Without a mistake and with a rule there is a grammar. -/
theorem grammar_eq (h : Holds is b) (hfaultless : Faultless is) (hne : conclusions is ≠ []) :
    ∃ g, b.grammar = .ok g ∧ Records is g ∧ g.name = b.name ∧ g.rules = b.rules := by
  obtain ⟨d, ds, hds⟩ := List.exists_cons_of_ne_nil hne
  have hfirst : b.rules[0]? = some { id := 0, lhs := d.lhs, body := d.body } := by
    rw [h.getElem?_rules hfaultless, hds]
    rfl
  have hchecked : (b.parts d.lhs).Checked :=
    h.checked_parts hfaultless (conclusions_covered d (by simp [hds])).1
  refine ⟨b.parts d.lhs, ?_, h.records_parts hfaultless (by rw [hds]; rfl), rfl, rfl⟩
  rw [grammar, h.mistake_eq_none hfaultless]
  cases hrules : b.rules with
  | nil =>
      rw [hrules] at hfirst
      cases hfirst
  | cons r rs =>
      have hassemble := hchecked.assemble_eq rfl (by simp [parts, hrules])
      rw [hrules] at hfirst
      obtain rfl := Option.some.inj hfirst
      simpa [parts, hrules] using hassemble

end Holds

/-- The three things that a builder can answer. -/
theorem Holds.grammar_cases {is : List Instruction} {b : Builder} (h : Holds is b) :
    (∃ d, FirstOffence is d ∧ b.grammar = .error (.malformed d)) ∨
    (Faultless is ∧ conclusions is = [] ∧ b.grammar = .error .empty) ∨
    (Faultless is ∧ conclusions is ≠ [] ∧
      ∃ g, b.grammar = .ok g ∧ Records is g ∧ g.name = b.name ∧ g.rules = b.rules) := by
  rcases faultless_or_firstOffence is with hfaultless | ⟨d, hd⟩
  · by_cases hne : conclusions is = []
    · refine Or.inr (Or.inl ⟨hfaultless, hne, ?_⟩)
      rw [grammar, h.mistake_eq_none hfaultless, show b.rules = [] by rw [h.rules, hne]; rfl]
    · exact Or.inr (Or.inr ⟨hfaultless, hne, h.grammar_eq hfaultless hne⟩)
  · refine Or.inl ⟨d, hd, ?_⟩
    rw [grammar, h.mistake_eq_some_iff.mpr hd]

/-- **A builder fails exactly when it should.**  It answers that the grammar is
    malformed just if a symbol cannot be declared or is used in both roles, or a
    body was to be emptied while symbols were pending; the defect is that of the
    first instruction that is a mistake, whatever instructions follow.  Otherwise
    the grammar is empty just if no rule was asked for, and else it has the rules
    that were returned, numbered in order, over disjoint alphabets. -/
theorem grammar_ofInstructions (name : String) (is : List Instruction) :
    ((∃ d, (ofInstructions name is).grammar = .error (.malformed d)) ↔
      (∃ s role, Uses is s role ∧ s.isDeclarable = false) ∨
      (∃ s, Uses is s .terminal ∧ Uses is s .nonterminal) ∨
      Somewhere (fun before c => ∃ key d, c = .finishEmpty key ∧ Grammar.desk before key = some d ∧
        d.body ≠ []) is) ∧
    (∀ d, (ofInstructions name is).grammar = .error (.malformed d) ↔ FirstOffence is d) ∧
    (∀ d more, FirstOffence is d →
      (ofInstructions name (is ++ more)).grammar = .error (.malformed d)) ∧
    ((ofInstructions name is).grammar = .error .empty ↔ Faultless is ∧ conclusions is = []) ∧
    (Faultless is → conclusions is ≠ [] →
      ∃ g, (ofInstructions name is).grammar = .ok g ∧ Records is g ∧ g.name = name ∧
        g.rules = ({ name } : Builder).returned is) := by
  have hmalformed (js : List Instruction) (d : Defect) :
      (ofInstructions name js).grammar = .error (.malformed d) ↔ FirstOffence js d := by
    rcases (holds_ofInstructions name js).grammar_cases with
      ⟨d', hd', heq⟩ | ⟨hfaultless, -, heq⟩ | ⟨hfaultless, -, g, heq, -⟩
    · rw [heq]
      refine ⟨?_, fun hd => by rw [FirstOffence.unique hd hd']⟩
      rintro ⟨⟩
      exact hd'
    · rw [heq]
      exact ⟨(nomatch ·), fun hd => absurd hfaultless hd.not_faultless⟩
    · rw [heq]
      exact ⟨(nomatch ·), fun hd => absurd hfaultless hd.not_faultless⟩
  -- an instruction is at fault just if one of them is the first at fault
  have hsome : (∃ d, FirstOffence is d) ↔ ¬ Faultless is :=
    ⟨fun ⟨_, hd⟩ => hd.not_faultless, (faultless_or_firstOffence is).resolve_left⟩
  refine ⟨?_, hmalformed is, ?_, ?_, ?_⟩
  · rw [exists_congr (hmalformed is), hsome, not_faultless_iff]
  · exact fun d more hd => (hmalformed _ d).mpr (Somewhere.append hd more)
  · rcases (holds_ofInstructions name is).grammar_cases with
      ⟨d, hd, heq⟩ | ⟨hfaultless, hnone, heq⟩ | ⟨-, hne, g, heq, -⟩
    · rw [heq]
      exact ⟨(nomatch ·), fun h => absurd h.1 hd.not_faultless⟩
    · exact iff_of_true heq ⟨hfaultless, hnone⟩
    · rw [heq]
      exact ⟨(nomatch ·), fun h => absurd h.2 hne⟩
  · intro hfaultless hne
    obtain ⟨g, heq, hrecords, hname, hrules⟩ :=
      (holds_ofInstructions name is).grammar_eq hfaultless hne
    obtain ⟨hreturned, hname'⟩ := rules_ofInstructions name is
    exact ⟨g, heq, hrecords, hname.trans hname', hrules.trans hreturned⟩

/-- The symbol in both roles comes before the emptied body, so it is the defect. -/
example : (ofInstructions "G"
    [.head "r" "S", .symbol "r" .terminal "S", .finishEmpty "r"]).grammar =
      .error (.malformed (.bothKinds "S")) := by
  rfl

end Builder

end Grammar

end ShiftReduce
