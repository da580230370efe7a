import Mathlib.Data.Set.Card
import ShiftReduce.Proofs.Compilation.Naming

/-! # The cache — what it answers after any requests

    What is kept under a fingerprint is the compilation of the first grammar with
    this fingerprint that could be compiled (`Kept`).  Each request keeps it that
    way, so the history of a cache is known from what it was asked.

    If equal fingerprints mean equal symbols and rules, a request fails just when
    the compilation without the cache fails.  Its answer is the right one up to
    the name in one case only: the earlier grammar and the one that is asked for
    are both augmented, or both are not.  A fingerprint does not tell these cases
    apart.  A grammar that was written with rule 0 of an augmentation has the
    fingerprint of the augmented grammar, but is augmented once more when it is
    compiled. -/

namespace ShiftReduce

namespace Grammar

/-- The grammars that can be had: those that are made, and one with nothing but a
    name. -/
inductive Given : Grammar → Prop where
  | made {g : Grammar} (h : g.Made) : Given g
  | blank (name : String) : Given (Grammar.blank name)

/-- A grammar that is given has been made, unless it has no rules. -/
theorem Given.made_of_rules {g : Grammar} (h : g.Given) (hrules : g.rules ≠ []) : g.Made := by
  cases h with
  | made h => exact h
  | blank name => exact absurd rfl hrules

/-- An augmented grammar has the old start symbol in rule 0. -/
theorem Made.innerStart_eq {g : Grammar} (hg : g.Made) :
    g.innerStart = if g.isAugmented then g.rules.head?.bind fun r => r.body.head? else none := by
  cases hg with
  | assembled h =>
      rw [isAugmented, (assemble_checked h).2.1]
      rfl
  | augmented _ h =>
      rw [augment] at h
      split at h
      · cases h
      · obtain rfl := Except.ok.inj h
        rfl

/-- Made grammars with the same content are the same up to the name if both are
    augmented or both are not. -/
theorem Made.eq_named {g h : Grammar} (hg : g.Made) (hh : h.Made) (hsame : g.SameContent h)
    (haugmented : g.isAugmented = h.isAugmented) : g = h.named g.name := by
  refine hsame.eq_named ?_
  rw [hg.innerStart_eq, hh.innerStart_eq, haugmented, hsame.rules]

end Grammar

namespace Compilation

/-! ## When a compilation succeeds -/

theorem compile_of_nil {g : Grammar} (h : g.rules = []) : compile g = .error .empty := by
  rw [compile, Analysis.make, Grammar.ensureAugmented, h]
  rfl

/-- What has been compiled has rules. -/
theorem rules_ne_of_compile {g : Grammar} {c : Compilation} (h : compile g = .ok c) :
    g.rules ≠ [] := by
  intro hnil
  rw [compile_of_nil hnil] at h
  cases h

/-- Every grammar with rules is compiled. -/
theorem exists_compile {g : Grammar} (h : g.rules ≠ []) : ∃ c, compile g = .ok c := by
  have hrules : ¬ g.rules.isEmpty = true := by
    rw [List.isEmpty_iff]
    exact h
  rw [compile, Analysis.make, Grammar.ensureAugmented, if_neg hrules]
  split
  · exact ⟨_, rfl⟩
  · exact ⟨_, rfl⟩

/-- The start symbol of a compilation is fresh unless the grammar was augmented
    before. -/
theorem start_of_compile {g : Grammar} {c : Compilation} (h : compile g = .ok c) :
    c.grammar.start = if g.isAugmented then g.start else g.freshStart := by
  have hrules : ¬ g.rules.isEmpty = true := by
    rw [List.isEmpty_iff]
    exact rules_ne_of_compile h
  rw [compile, Analysis.make, Grammar.ensureAugmented, if_neg hrules] at h
  split at h
  · obtain rfl := Except.ok.inj h
    rename_i haugmented
    rw [if_pos haugmented]
    rfl
  · obtain rfl := Except.ok.inj h
    rename_i haugmented
    rw [if_neg haugmented]
    rfl

/-- The start symbol of a grammar that was augmented is one of its nonterminals,
    and a fresh one is not. -/
theorem start_mem_iff {g : Grammar} {c : Compilation} (hg : g.Checked) (h : compile g = .ok c) :
    c.grammar.start ∈ g.nonterminals ↔ g.isAugmented = true := by
  rw [start_of_compile h]
  split
  · rename_i haugmented
    exact ⟨fun _ => haugmented, fun _ => hg.start_mem⟩
  · rename_i haugmented
    exact ⟨fun hmem => absurd hmem g.freshStart_fresh.2, fun h => absurd h haugmented⟩

/-- Grammars with the same content have the same compilation up to the name if
    and only if both are augmented or both are not. -/
theorem eq_named_iff {g h : Grammar} {c d : Compilation} (hg : g.Given) (hh : h.Given)
    (hsame : g.SameContent h) (hc : compile g = .ok c) (hd : compile h = .ok d) :
    (∃ name, c = d.named name) ↔ g.isAugmented = h.isAugmented := by
  have hmade := hg.made_of_rules (rules_ne_of_compile hc)
  have hmade' := hh.made_of_rules (rules_ne_of_compile hd)
  constructor
  · rintro ⟨name, rfl⟩
    have hstart := start_mem_iff hmade.checked.1 hc
    have hstart' := start_mem_iff hmade'.checked.1 hd
    rw [hsame.nonterminals] at hstart
    exact Bool.eq_iff_iff.mpr (hstart.symm.trans hstart')
  · intro haugmented
    have hcompile := compile_named h g.name
    rw [← hmade.eq_named hmade' hsame haugmented, hc, hd] at hcompile
    exact ⟨g.name, Except.ok.inj hcompile⟩

namespace Cache

/-! ## Histories -/

/-- The cache after some requests, the earliest of them first. -/
def after (requests : List (Option Grammar)) : Cache :=
  requests.foldl (fun c g => (c.request g).2) {}

/-- A request that counts under a fingerprint: its grammar has it and can be
    compiled. -/
def counts (fingerprint : String) (g : Grammar) : Bool :=
  g.fingerprint == fingerprint && (Compilation.compile g).isOk

/-- The grammar of the earliest request that counts under a fingerprint. -/
def earliest? (requests : List (Option Grammar)) (fingerprint : String) : Option Grammar :=
  requests.findSome? fun g => g.filter (counts fingerprint)

/-- A request counts for a fingerprint if it has that fingerprint and can be
    compiled. -/
theorem counts_iff {fingerprint : String} {g : Grammar} :
    counts fingerprint g = true ↔
      g.fingerprint = fingerprint ∧ ∃ made, Compilation.compile g = .ok made := by
  rw [counts, Bool.and_eq_true, beq_iff_eq]
  cases Compilation.compile g with
  | ok made => simp [Except.isOk, Except.toBool]
  | error e => simp [Except.isOk, Except.toBool]

/-- A further request is the earliest one only if there was none before. -/
theorem earliest?_snoc (requests : List (Option Grammar)) (g : Option Grammar)
    (fingerprint : String) :
    earliest? (requests ++ [g]) fingerprint
      = (earliest? requests fingerprint).or (g.filter (counts fingerprint)) := by
  rw [earliest?, earliest?, List.findSome?_append, List.findSome?_cons, List.findSome?_nil]
  cases g.filter (counts fingerprint) with
  | none => rfl
  | some a => rfl

/-- The earliest request that counts is one of them, and it counts. -/
theorem earliest?_eq_some {requests : List (Option Grammar)} {fingerprint : String} {g : Grammar}
    (h : earliest? requests fingerprint = some g) :
    some g ∈ requests ∧ counts fingerprint g = true := by
  obtain ⟨request, hmem, hfilter⟩ := List.exists_of_findSome?_eq_some h
  obtain ⟨rfl, hcounts⟩ := Option.filter_eq_some_iff.mp hfilter
  exact ⟨hmem, hcounts⟩

/-- There is an earliest one as soon as any of them counts. -/
theorem isSome_earliest?_iff {requests : List (Option Grammar)} {fingerprint : String} :
    (earliest? requests fingerprint).isSome = true ↔
      ∃ g, some g ∈ requests ∧ counts fingerprint g = true := by
  constructor
  · intro h
    obtain ⟨g, hg⟩ := Option.isSome_iff_exists.mp h
    exact ⟨g, earliest?_eq_some hg⟩
  · rintro ⟨g, hmem, hcounts⟩
    rw [earliest?, List.isSome_findSome?, List.any_eq_true]
    exact ⟨some g, hmem, by simp [Option.filter, hcounts]⟩

/-- What a cache keeps of a history: under every fingerprint the compilation of the
    earliest request that counts, and no fingerprint twice. -/
structure Kept (requests : List (Option Grammar)) (c : Cache) : Prop where
  get?_eq : ∀ fingerprint, c.get? fingerprint
    = (earliest? requests fingerprint).bind fun g => (Compilation.compile g).toOption
  keys : (c.entries.map Prod.fst).Nodup

/-- The cache answers for the fingerprints that it has entries of. -/
theorem isSome_get?_iff {c : Cache} {fingerprint : String} :
    (c.get? fingerprint).isSome = true ↔ fingerprint ∈ c.entries.map Prod.fst := by
  rw [← Bool.not_eq_false, Option.isSome_eq_false_iff, Option.isNone_iff_eq_none, get?,
    List.lookup_eq_none_iff, List.mem_map]
  push Not
  constructor
  · rintro ⟨entry, hmem, hkey⟩
    have hsame : fingerprint = entry.1 := by simpa using hkey
    exact ⟨entry, hmem, hsame.symm⟩
  · rintro ⟨entry, hmem, rfl⟩
    exact ⟨entry, hmem, by simp⟩

/-- A known fingerprint is answered from the cache, whatever the grammar is. -/
theorem request_of_known {c : Cache} {g : Grammar} {known : Compilation}
    (h : c.get? g.fingerprint = some known) : c.request (some g) = (.ok known, c) := by
  rw [request, compile, h]

/-- An error is handed on, and nothing is kept. -/
theorem request_of_error {c : Cache} {g : Grammar} {e : Grammar.Error}
    (h : c.get? g.fingerprint = none) (he : Compilation.compile g = .error e) :
    c.request (some g) = (.error e, c) := by
  rw [request, compile, h, he]
  rfl

/-- A new compilation is answered and kept. -/
theorem request_of_new {c : Cache} {g : Grammar} {made : Compilation}
    (h : c.get? g.fingerprint = none) (hmade : Compilation.compile g = .ok made) :
    c.request (some g) = (.ok made, { entries := (g.fingerprint, made) :: c.entries }) := by
  rw [request, compile, h, hmade]
  rfl

namespace Kept

variable {requests : List (Option Grammar)} {c : Cache} {g : Grammar} {fingerprint : String}

/-- Nothing is kept under a fingerprint just when no request counts under it. -/
theorem get?_eq_none_iff (h : Kept requests c) :
    c.get? fingerprint = none ↔ earliest? requests fingerprint = none := by
  rw [h.get?_eq]
  cases hearliest : earliest? requests fingerprint with
  | none => exact iff_of_true rfl rfl
  | some a =>
      obtain ⟨-, made, hmade⟩ := counts_iff.mp (earliest?_eq_some hearliest).2
      rw [Option.bind_some, hmade]
      exact iff_of_false nofun nofun

/-- A request that changes nothing for any fingerprint. -/
theorem snoc_of_same (h : Kept requests c) {g : Option Grammar}
    (hsame : ∀ fingerprint, earliest? (requests ++ [g]) fingerprint
      = earliest? requests fingerprint) : Kept (requests ++ [g]) c where
  get?_eq fingerprint := by rw [hsame, h.get?_eq]
  keys := h.keys

/-- One request. -/
theorem request (h : Kept requests c) (g : Option Grammar) :
    Kept (requests ++ [g]) (c.request g).2 := by
  cases g with
  | none =>
      refine h.snoc_of_same ?_
      intro fingerprint
      rw [earliest?_snoc]
      exact Option.or_none
  | some a =>
      -- answered from the cache, refused by the compiler, or newly made
      cases hget : c.get? a.fingerprint with
      | some known =>
          rw [request_of_known hget]
          refine h.snoc_of_same ?_
          intro fingerprint
          rw [earliest?_snoc]
          by_cases hkey : a.fingerprint = fingerprint
          · -- an earlier request counts under the fingerprint
            obtain ⟨b, hb⟩ : ∃ b, earliest? requests fingerprint = some b := by
              rw [← Option.ne_none_iff_exists', ← hkey]
              intro hnone
              rw [h.get?_eq_none_iff.mpr hnone] at hget
              cases hget
            rw [hb]
            rfl
          · have hnot : ¬ counts fingerprint a = true := fun hcounts => hkey (counts_iff.mp hcounts).1
            simp [Option.filter, hnot]
      | none =>
          cases hcompile : Compilation.compile a with
          | error e =>
              rw [request_of_error hget hcompile]
              refine h.snoc_of_same ?_
              intro fingerprint
              have hnot : ¬ counts fingerprint a = true := by
                intro hcounts
                obtain ⟨-, made, hmade⟩ := counts_iff.mp hcounts
                rw [hcompile] at hmade
                cases hmade
              rw [earliest?_snoc]
              simp [Option.filter, hnot]
          | ok made =>
              rw [request_of_new hget hcompile]
              constructor
              · intro fingerprint
                rw [earliest?_snoc]
                by_cases hkey : a.fingerprint = fingerprint
                · subst hkey
                  have hcounts := counts_iff.mpr ⟨rfl, made, hcompile⟩
                  rw [h.get?_eq_none_iff.mp hget, get?, List.lookup_cons_self]
                  simp [Option.filter, hcounts, hcompile, Except.toOption]
                · have hnot : ¬ counts fingerprint a = true :=
                    fun hcounts => hkey (counts_iff.mp hcounts).1
                  have hne : (fingerprint == a.fingerprint) = false := beq_false_of_ne (Ne.symm hkey)
                  have hold := h.get?_eq fingerprint
                  rw [get?] at hold
                  rw [get?, List.lookup_cons, hne]
                  simpa [Option.filter, hnot] using hold
              · rw [List.map_cons, List.nodup_cons]
                refine ⟨?_, h.keys⟩
                rw [← isSome_get?_iff, hget]
                exact Bool.false_ne_true

/-- The fingerprints that are known. -/
theorem mem_keys_iff (h : Kept requests c) :
    fingerprint ∈ c.entries.map Prod.fst ↔ ∃ g made, some g ∈ requests ∧
      Compilation.compile g = .ok made ∧ g.fingerprint = fingerprint := by
  rw [← isSome_get?_iff, Option.isSome_iff_ne_none, Ne, h.get?_eq_none_iff, ← Ne,
    ← Option.isSome_iff_ne_none, isSome_earliest?_iff]
  constructor
  · rintro ⟨g, hmem, hcounts⟩
    obtain ⟨hkey, made, hmade⟩ := counts_iff.mp hcounts
    exact ⟨g, made, hmem, hmade, hkey⟩
  · rintro ⟨g, made, hmem, hmade, hkey⟩
    exact ⟨g, hmem, counts_iff.mpr ⟨hkey, made, hmade⟩⟩

end Kept

/-- Every history is kept. -/
theorem kept_after (requests : List (Option Grammar)) : Kept requests (after requests) := by
  induction requests using List.reverseRecOn with
  | nil => exact ⟨fun _ => rfl, List.nodup_nil⟩
  | append_singleton requests g ih =>
      rw [after, List.foldl_concat]
      exact ih.request g

/-- There is an entry for every fingerprint of a grammar that was compiled. -/
theorem size_after (requests : List (Option Grammar)) :
    (after requests).size = Set.ncard { fingerprint | ∃ g made, some g ∈ requests ∧
      Compilation.compile g = .ok made ∧ g.fingerprint = fingerprint } := by
  have h := kept_after requests
  have hkeys : { fingerprint | ∃ g made, some g ∈ requests ∧ Compilation.compile g = .ok made ∧
      g.fingerprint = fingerprint }
        = (((after requests).entries.map Prod.fst).toFinset : Set String) := by
    ext fingerprint
    rw [Finset.mem_coe, List.mem_toFinset, h.mem_keys_iff]
    rfl
  rw [hkeys, Set.ncard_coe_finset, List.toFinset_card_of_nodup h.keys, List.length_map]
  rfl

/-! ## Answers -/

/-- The answer to a request is the compilation of the earliest request that counts
    under its fingerprint, this one included. -/
theorem request_after_eq_ok {requests : List (Option Grammar)} {g : Option Grammar}
    {made : Compilation} (h : ((after requests).request g).1 = .ok made) :
    ∃ a b, g = some a ∧ earliest? (requests ++ [g]) a.fingerprint = some b ∧
      Compilation.compile b = .ok made := by
  cases g with
  | none => cases h
  | some a =>
      have hkept := (kept_after requests).request (some a)
      refine ⟨a, ?_⟩
      -- what is answered stands in the cache afterwards, so it is what the first
      -- request with this fingerprint gave
      suffices hget : ((after requests).request (some a)).2.get? a.fingerprint = some made by
        rw [hkept.get?_eq] at hget
        obtain ⟨b, hb, hmade⟩ := Option.bind_eq_some_iff.mp hget
        refine ⟨b, rfl, hb, ?_⟩
        obtain ⟨-, made', hmade'⟩ := counts_iff.mp (earliest?_eq_some hb).2
        rw [hmade'] at hmade ⊢
        exact congrArg Except.ok (Option.some.inj hmade)
      cases hget : (after requests).get? a.fingerprint with
      | some known =>
          rw [request_of_known hget] at h ⊢
          rw [hget, Except.ok.inj h]
      | none =>
          cases hcompile : Compilation.compile a with
          | error e =>
              rw [request_of_error hget hcompile] at h
              cases h
          | ok c =>
              rw [request_of_new hget hcompile] at h ⊢
              rw [get?, List.lookup_cons_self, Except.ok.inj h]

/-- A request that fails has no entry to fall back on, and changes nothing. -/
theorem request_after_eq_error {requests : List (Option Grammar)} {g : Option Grammar}
    {e : Grammar.Error} (h : ((after requests).request g).1 = .error e) :
    compileGiven g = .error e ∧ ((after requests).request g).2 = after requests := by
  cases g with
  | none =>
      obtain rfl := Except.error.inj h
      exact ⟨rfl, rfl⟩
  | some a =>
      cases hget : (after requests).get? a.fingerprint with
      | some known =>
          rw [request_of_known hget] at h
          cases h
      | none =>
          cases hcompile : Compilation.compile a with
          | error e' =>
              rw [request_of_error hget hcompile] at h ⊢
              obtain rfl := Except.error.inj h
              exact ⟨hcompile, rfl⟩
          | ok c =>
              rw [request_of_new hget hcompile] at h
              cases h

/-- **What the cache answers.**  Let grammars that were asked for have equal
    fingerprints only if they have the same symbols and rules.  A request fails
    just when the compilation of its grammar fails, with the same error, and then
    leaves the cache as it is.  Otherwise it gives the compilation of the earliest
    grammar with its fingerprint, which is the compilation of its own grammar up to
    the name if and only if both are augmented or both are not.  There are as many
    entries as fingerprints of compiled grammars. -/
theorem request_exact (requests : List (Option Grammar)) (g : Option Grammar)
    (hgiven : ∀ a, some a ∈ requests ++ [g] → a.Given)
    (hcontent : ∀ a b, some a ∈ requests ++ [g] → some b ∈ requests ++ [g] →
      a.fingerprint = b.fingerprint → a.SameContent b) :
    (∀ e, ((after requests).request g).1 = .error e ↔ compileGiven g = .error e) ∧
    (∀ e, ((after requests).request g).1 = .error e →
      ((after requests).request g).2 = after requests) ∧
    (∀ made, ((after requests).request g).1 = .ok made →
      ∃ a b direct, g = some a ∧ compileGiven g = .ok direct ∧
        earliest? (requests ++ [g]) a.fingerprint = some b ∧ Compilation.compile b = .ok made ∧
        ((∃ name, made = direct.named name) ↔ b.isAugmented = a.isAugmented)) ∧
    (after requests).size = Set.ncard { fingerprint | ∃ a made, some a ∈ requests ∧
      Compilation.compile a = .ok made ∧ a.fingerprint = fingerprint } := by
  -- what the cache gives is the compilation of a grammar with the same content
  have horigin : ∀ made, ((after requests).request g).1 = .ok made → ∃ a b, g = some a ∧
      earliest? (requests ++ [g]) a.fingerprint = some b ∧ Compilation.compile b = .ok made ∧
      a.Given ∧ b.Given ∧ b.SameContent a := by
    intro made hmade
    obtain ⟨a, b, rfl, hb, hcompile⟩ := request_after_eq_ok hmade
    obtain ⟨hmem, hcounts⟩ := earliest?_eq_some hb
    have hlast : some a ∈ requests ++ [some a] := by simp
    exact ⟨a, b, rfl, hb, hcompile, hgiven a hlast, hgiven b hmem,
      hcontent b a hmem hlast (counts_iff.mp hcounts).1⟩
  refine ⟨?_, fun e he => (request_after_eq_error he).2, ?_, size_after requests⟩
  · intro e
    refine ⟨fun he => (request_after_eq_error he).1, ?_⟩
    intro hdirect
    cases hanswer : ((after requests).request g).1 with
    | error e' =>
        rw [(request_after_eq_error hanswer).1] at hdirect
        exact hdirect
    | ok made =>
        obtain ⟨a, b, rfl, -, hcompile, -, -, hsame⟩ := horigin made hanswer
        have hrules := rules_ne_of_compile hcompile
        rw [hsame.rules] at hrules
        obtain ⟨direct, hok⟩ := exists_compile hrules
        cases hok.symm.trans hdirect
  · intro made hmade
    obtain ⟨a, b, rfl, hb, hcompile, ha, hb', hsame⟩ := horigin made hmade
    have hrules := rules_ne_of_compile hcompile
    rw [hsame.rules] at hrules
    obtain ⟨direct, hdirect⟩ := exists_compile hrules
    exact ⟨a, b, direct, rfl, hdirect, hb, hcompile, eq_named_iff hb' ha hsame hcompile hdirect⟩

/-- A grammar with one rule. -/
def plainGrammar : Grammar :=
  { name := "plain", start := "S", terminals := ["a"], nonterminals := ["S"]
    rules := [{ id := 0, lhs := "S", body := ["a"] }] }

/-- The grammar with one rule, written with a start symbol that looks like one of
    an augmentation. -/
def primedGrammar : Grammar :=
  { name := "primed", start := "S'", terminals := ["a"], nonterminals := ["S'", "S"]
    rules := [{ id := 0, lhs := "S'", body := ["S"] }, { id := 1, lhs := "S", body := ["a"] }] }

/-- The grammar without an added start symbol can be made. -/
theorem made_plain (name : String) : (plainGrammar.named name).Made := by
  have h : Grammar.assemble name "S" ["a"] ["S"] [some { id := 0, lhs := "S", body := ["a"] }]
      = .ok (plainGrammar.named name) := rfl
  exact .assembled h

/-- So can the one that is its augmentation. -/
theorem made_primed : primedGrammar.Made := by
  have h : Grammar.assemble "primed" "S'" ["a"] ["S'", "S"]
      [some { id := 0, lhs := "S'", body := ["S"] }, some { id := 1, lhs := "S", body := ["a"] }]
      = .ok primedGrammar := rfl
  exact .assembled h

/-- The requests of the example: no grammar, the one with one rule, and its
    augmentation. -/
def plainRequests : List (Option Grammar) :=
  [none, some plainGrammar, some plainGrammar.augmented]

/-- The small grammar is asked for augmented and not, and under two names, behind a
    request that fails: under its second name it gets the compilation that it has
    under the first. -/
theorem request_exact_plain :
    (after plainRequests).size = 2 ∧
      ∃ made direct, ((after plainRequests).request (some (plainGrammar.named "other"))).1 = .ok made ∧
        Compilation.compile (plainGrammar.named "other") = .ok direct ∧
        made.grammar.name = "plain" ∧ direct.grammar.name = "other" ∧
        ∃ name, made = direct.named name := by
  have hmem : ∀ a, some a ∈ plainRequests ++ [some (plainGrammar.named "other")] →
      a = plainGrammar.augmented ∨ ∃ name, a = plainGrammar.named name := by
    intro a ha
    have hcases : a = plainGrammar ∨ a = plainGrammar.augmented ∨ a = plainGrammar.named "other" := by
      simpa [plainRequests] using ha
    rcases hcases with rfl | rfl | rfl
    · exact .inr ⟨"plain", rfl⟩
    · exact .inl rfl
    · exact .inr ⟨"other", rfl⟩
  have hgiven : ∀ a, some a ∈ plainRequests ++ [some (plainGrammar.named "other")] → a.Given := by
    intro a ha
    obtain rfl | ⟨name, rfl⟩ := hmem a ha
    · exact .made (.augmented (made_plain "plain") rfl)
    · exact .made (made_plain name)
  have hnamed : ∀ name, (plainGrammar.named name).SameContent plainGrammar :=
    fun _ => ⟨rfl, rfl, rfl, rfl⟩
  -- the one fact about fingerprints that is computed
  have hne : plainGrammar.fingerprint ≠ plainGrammar.augmented.fingerprint := by decide +kernel
  have hcontent : ∀ a b, some a ∈ plainRequests ++ [some (plainGrammar.named "other")] →
      some b ∈ plainRequests ++ [some (plainGrammar.named "other")] →
        a.fingerprint = b.fingerprint → a.SameContent b := by
    intro a b ha hb hsame
    obtain rfl | ⟨name, rfl⟩ := hmem a ha
    · obtain rfl | ⟨name, rfl⟩ := hmem b hb
      · exact ⟨rfl, rfl, rfl, rfl⟩
      · rw [(hnamed name).fingerprint_eq] at hsame
        exact absurd hsame.symm hne
    · obtain rfl | ⟨name', rfl⟩ := hmem b hb
      · rw [(hnamed name).fingerprint_eq] at hsame
        exact absurd hsame hne
      · exact ⟨rfl, rfl, rfl, rfl⟩
  obtain ⟨-, -, hok, hsize⟩ := request_exact plainRequests _ hgiven hcontent
  have hearliest : earliest? plainRequests (plainGrammar.named "other").fingerprint
      = some plainGrammar := by
    have hcounts : counts plainGrammar.fingerprint plainGrammar = true :=
      counts_iff.mpr ⟨rfl, _, rfl⟩
    rw [(hnamed "other").fingerprint_eq]
    simp [earliest?, plainRequests, Option.filter, hcounts]
  have hget : (after plainRequests).get? (plainGrammar.named "other").fingerprint
      = some (ofAnalysis (Analysis.ofGrammar plainGrammar.augmented)) := by
    rw [(kept_after plainRequests).get?_eq, hearliest]
    rfl
  have hanswer := congrArg Prod.fst (request_of_known hget)
  obtain ⟨a, b, direct, ha, hdirect, hb, -, hiff⟩ := hok _ hanswer
  obtain rfl := Option.some.inj ha
  rw [earliest?_snoc, hearliest, Option.some_or] at hb
  obtain rfl := Option.some.inj hb
  refine ⟨?_, _, direct, hanswer, hdirect, rfl, ?_, hiff.mpr rfl⟩
  · -- the fingerprints that were made are these two
    rw [hsize, ← Set.ncard_pair hne]
    refine congrArg Set.ncard (Set.ext fun fingerprint => ?_)
    constructor
    · rintro ⟨a, made, ha, -, rfl⟩
      have hcases : a = plainGrammar ∨ a = plainGrammar.augmented := by
        simpa [plainRequests] using ha
      rcases hcases with rfl | rfl
      · exact .inl rfl
      · exact .inr rfl
    · rintro (rfl | rfl)
      · exact ⟨plainGrammar, _, by simp [plainRequests], rfl, rfl⟩
      · exact ⟨plainGrammar.augmented, _, by simp [plainRequests], rfl, rfl⟩
  · rw [← Except.ok.inj hdirect]
    rfl

/-- A grammar that is not augmented comes before one that is and has the same
    content.  The compilation that the cache gives has another start symbol, more
    rules and more states. -/
theorem request_not_transparent :
    primedGrammar.Given ∧ plainGrammar.augmented.Given ∧
      primedGrammar.SameContent plainGrammar.augmented ∧
      ∃ made direct,
        ((after [some primedGrammar]).request (some plainGrammar.augmented)).1 = .ok made ∧
        Compilation.compile plainGrammar.augmented = .ok direct ∧
        made.grammar.start = "S''" ∧ direct.grammar.start = "S'" ∧
        made.grammar.size = 3 ∧ direct.grammar.size = 2 ∧
        made.automaton.size = 4 ∧ direct.automaton.size = 3 := by
  have hsame : primedGrammar.SameContent plainGrammar.augmented := ⟨rfl, rfl, rfl, rfl⟩
  refine ⟨.made made_primed, .made (.augmented (made_plain "plain") rfl), hsame, ?_⟩
  have hcounts : counts primedGrammar.fingerprint primedGrammar = true :=
    counts_iff.mpr ⟨rfl, _, rfl⟩
  have hget : (after [some primedGrammar]).get? plainGrammar.augmented.fingerprint
      = some (ofAnalysis (Analysis.ofGrammar primedGrammar.augmented)) := by
    rw [(kept_after [some primedGrammar]).get?_eq, ← hsame.fingerprint_eq]
    simp only [earliest?, List.findSome?_cons, Option.filter_some, hcounts, if_true,
      Option.bind_some]
    rfl
  refine ⟨_, _, congrArg Prod.fst (request_of_known hget), rfl, rfl, rfl, rfl, rfl, ?_, ?_⟩
  · decide +kernel
  · decide +kernel

end Cache

end Compilation

end ShiftReduce
