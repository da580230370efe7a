import Mathlib.Data.List.Infix
import ShiftReduce.Grammar.Bnf
import ShiftReduce.Proofs.Compilation.Naming

/-! # Signatures — when the content of a grammar can be read off

    A signature puts symbols between quotes as they are.  A quote within a symbol
    therefore looks like its end wherever a comma or a closing bracket follows,
    and grammars with different content can have the same signature
    (`signature_collision`).  Without such symbols (`Enclosed`) each text
    ends where it is seen to end: a symbol in quotes, a list of texts and a rule
    are `Delimited`, one from the other, so that two grammars with the same
    signature have the same content (`signature_eq_iff`). -/

namespace ShiftReduce

namespace Grammar

/-- The characters that can follow a text within a list: a comma before the next
    text, a bracket behind the last one. -/
def isDelimiter (c : Char) : Bool :=
  c == ',' || c == ']'

/-- No quote within the symbol is followed by a delimiter. -/
def Enclosed (s : List Char) : Prop :=
  ∀ c, isDelimiter c = true → ¬ ['"', c] <:+: s

/-- To be enclosed is to have neither a quote before a comma nor one before a
    bracket. -/
theorem enclosed_iff {s : List Char} :
    Enclosed s ↔ ¬ ['"', ','] <:+: s ∧ ¬ ['"', ']'] <:+: s := by
  constructor
  · intro h
    exact ⟨h ',' rfl, h ']' rfl⟩
  · rintro ⟨hcomma, hbracket⟩ c hc
    rw [isDelimiter, Bool.or_eq_true, beq_iff_eq, beq_iff_eq] at hc
    rcases hc with rfl | rfl
    · exact hcomma
    · exact hbracket

instance (s : List Char) : Decidable (Enclosed s) :=
  decidable_of_iff' _ enclosed_iff

/-- Texts of values that show where they end: the text and the delimiter behind it
    determine the value and what is left. -/
def Delimited {α : Type} (P : α → Prop) (text : α → List Char) : Prop :=
  ∀ ⦃a b⦄, P a → P b → ∀ ⦃c d⦄, isDelimiter c = true → isDelimiter d = true →
    ∀ ⦃u v⦄, text a ++ c :: u = text b ++ d :: v → a = b ∧ c = d ∧ u = v

/-! ## Symbols in quotes -/

/-- A symbol does not go on behind a quote and a delimiter. -/
theorem Enclosed.eq_nil {s w u v : List Char} {c d : Char} (h : Enclosed (s ++ w))
    (hc : isDelimiter c = true) (heq : '"' :: c :: u = w ++ '"' :: d :: v) : w = [] := by
  match w with
  | [] => rfl
  | [x] =>
      obtain ⟨-, hquote⟩ := List.cons.inj heq
      obtain ⟨rfl, -⟩ := List.cons.inj hquote
      exact absurd hc (by decide)
  | x :: y :: w =>
      obtain ⟨rfl, htail⟩ := List.cons.inj heq
      obtain ⟨rfl, -⟩ := List.cons.inj htail
      exact absurd ⟨s, w, by simp⟩ (h c hc)

/-- A symbol in quotes. -/
def quoted (s : Symbol) : List Char :=
  '"' :: s.toList ++ ['"']

/-- An enclosed symbol ends at the first quote before a delimiter. -/
theorem delimited_quoted : Delimited (fun s : Symbol => Enclosed s.toList) quoted := by
  intro s t hs ht c d hc hd u v heq
  have htexts : s.toList ++ '"' :: c :: u = t.toList ++ '"' :: d :: v := by
    simpa [quoted] using heq
  have hsame : s.toList = t.toList := by
    rcases List.append_eq_append_iff.mp htexts with ⟨w, hw, hrest⟩ | ⟨w, hw, hrest⟩
    · rw [hw] at ht
      rw [hw, ht.eq_nil hc hrest, List.append_nil]
    · rw [hw] at hs
      rw [hw, hs.eq_nil hd hrest, List.append_nil]
  rw [hsame, List.append_cancel_left_eq] at htexts
  obtain ⟨-, htail⟩ := List.cons.inj htexts
  obtain ⟨hcd, huv⟩ := List.cons.inj htail
  exact ⟨String.toList_inj.mp hsame, hcd, huv⟩

/-! ## Lists -/

/-- The texts of a list with commas between them and a bracket behind. -/
def listed {α : Type} (text : α → List Char) (as : List α) : List Char :=
  [','].intercalate (as.map text) ++ [']']

section Lists

variable {α : Type} {P : α → Prop} {text : α → List Char}

/-- A list goes on with a comma, or ends with its bracket. -/
theorem listed_cons (a : α) (as : List α) (u : List Char) :
    listed text (a :: as) ++ u = text a ++ match as with
      | [] => ']' :: u
      | b :: as => ',' :: (listed text (b :: as) ++ u) := by
  cases as with
  | nil => simp [listed]
  | cons b as => simp [listed]

/-- The text of a list shows where the list ends, if the texts in it do and none
    begins like the end of a list. -/
theorem Delimited.listed_inj (h : Delimited P text)
    (hhead : ∀ a, ∃ x w, text a = x :: w ∧ x ≠ ']') :
    ∀ {as bs : List α}, (∀ a ∈ as, P a) → (∀ b ∈ bs, P b) → ∀ {u v : List Char},
      listed text as ++ u = listed text bs ++ v → as = bs ∧ u = v := by
  -- a list that is empty begins with the bracket, any other with a text
  have hends : ∀ (b : α) (bs : List α) (u v : List Char),
      listed text [] ++ u ≠ listed text (b :: bs) ++ v := by
    intro b bs u v heq
    obtain ⟨x, w, hx, hne⟩ := hhead b
    rw [listed_cons, hx] at heq
    exact hne (List.cons.inj heq).1.symm
  intro as
  induction as with
  | nil =>
      intro bs _ _ u v heq
      cases bs with
      | nil => exact ⟨rfl, (List.cons.inj heq).2⟩
      | cons b bs => exact absurd heq (hends b bs u v)
  | cons a as ih =>
      intro bs has hbs u v heq
      cases bs with
      | nil => exact absurd heq.symm (hends a as v u)
      | cons b bs =>
          have ha := has a List.mem_cons_self
          have hb := hbs b List.mem_cons_self
          rw [listed_cons, listed_cons] at heq
          match as, bs with
          | [], [] =>
              obtain ⟨rfl, -, hrest⟩ := h ha hb rfl rfl heq
              exact ⟨rfl, hrest⟩
          | [], b' :: bs =>
              obtain ⟨-, hne, -⟩ := h ha hb rfl rfl heq
              exact absurd hne (by decide)
          | a' :: as, [] =>
              obtain ⟨-, hne, -⟩ := h ha hb rfl rfl heq
              exact absurd hne (by decide)
          | a' :: as, b' :: bs =>
              obtain ⟨rfl, -, hrest⟩ := h ha hb rfl rfl heq
              obtain ⟨htail, huv⟩ := ih (fun x hx => has x (List.mem_cons_of_mem a hx))
                (fun x hx => hbs x (List.mem_cons_of_mem _ hx)) hrest
              rw [htail]
              exact ⟨rfl, huv⟩

end Lists

/-! ## Rules -/

/-- A rule as a pair of its sides, the right one as it is written. -/
def sides (r : Production) : Symbol × List Symbol :=
  (r.lhs, r.written)

/-- The text of a rule. -/
def ruleText (r : Symbol × List Symbol) : List Char :=
  ['\x7b', 'L', 'H', 'S', ':'] ++ quoted r.1 ++ [',', 'R', 'H', 'S', ':', '[']
    ++ listed quoted r.2 ++ ['\x7d']

/-- The text of a symbol does not begin like the end of a list. -/
theorem quoted_head (s : Symbol) : ∃ x w, quoted s = x :: w ∧ x ≠ ']' :=
  ⟨'"', s.toList ++ ['"'], rfl, by decide⟩

/-- Nor does the text of a rule. -/
theorem ruleText_head (r : Symbol × List Symbol) : ∃ x w, ruleText r = x :: w ∧ x ≠ ']' :=
  ⟨'\x7b', _, rfl, by decide⟩

/-- A rule and the symbols in its text. -/
theorem delimited_ruleText :
    Delimited (fun r : Symbol × List Symbol => Enclosed r.1.toList ∧ ∀ s ∈ r.2, Enclosed s.toList)
      ruleText := by
  rintro ⟨lhs, rhs⟩ ⟨lhs', rhs'⟩ ⟨hlhs, hrhs⟩ ⟨hlhs', hrhs'⟩ c d hc hd u v heq
  simp only [ruleText, List.append_assoc, List.cons_append, List.nil_append, List.cons.injEq,
    true_and] at heq
  obtain ⟨rfl, -, hright⟩ := delimited_quoted hlhs hlhs' rfl rfl heq
  simp only [List.cons.injEq, true_and] at hright
  obtain ⟨rfl, hrest⟩ := delimited_quoted.listed_inj quoted_head hrhs hrhs' hright
  simp only [List.cons.injEq, true_and] at hrest
  exact ⟨rfl, hrest⟩

/-! ## Signatures -/

/-- The text of a list of symbols, character by character. -/
theorem toList_signatureList (ss : List Symbol) :
    (signatureList ss).toList = '[' :: listed quoted ss := by
  have hquoted : (String.toList ∘ fun s : Symbol => "\"" ++ s ++ "\"") = quoted := by
    funext s
    simp [quoted]
  simp [signatureList, listed, hquoted]

theorem toList_signatureRule (r : Production) :
    (signatureRule r).toList = ruleText (sides r) := by
  simp [signatureRule, ruleText, toList_signatureList, sides, quoted]

/-- The text of a grammar: its fields in the order of their names. -/
theorem toList_signature (g : Grammar) :
    g.signature.toList = "\x7bNonTerminals:[".toList ++ (listed quoted g.nonterminals ++
      (",Rules:[".toList ++ (listed ruleText (g.rules.map sides) ++
        (",Start:".toList ++ (quoted g.start ++ ',' ::
          ("Terminals:[".toList ++ (listed quoted g.terminals ++ ['\x7d']))))))) := by
  have hrules : (g.rules.map signatureRule).map String.toList = (g.rules.map sides).map ruleText := by
    rw [List.map_map, List.map_map]
    exact List.map_congr_left fun r _ => toList_signatureRule r
  unfold signature
  simp only [String.toList_append, toList_signatureList, String.toList_intercalate, hrules]
  simp [listed, quoted]

/-- The written form of a body shows the body, if `ε` is none of its symbols. -/
theorem body_eq_of_written {r q : Production} (hr : Symbol.epsilon ∉ r.body)
    (hq : Symbol.epsilon ∉ q.body) (h : r.written = q.written) : r.body = q.body := by
  rw [Production.written, Production.written] at h
  split at h <;> split at h
  · rename_i hrnil hqnil
    rw [List.isEmpty_iff.mp hrnil, List.isEmpty_iff.mp hqnil]
  · rw [← h] at hq
    exact absurd List.mem_cons_self hq
  · rw [h] at hr
    exact absurd List.mem_cons_self hr
  · exact h

namespace Checked

variable {g h : Grammar}

/-- No rule of a checked grammar mentions the empty word. -/
theorem epsilon_notMem_body (hg : g.Checked) {r : Production} (hr : r ∈ g.rules) :
    Symbol.epsilon ∉ r.body := by
  intro hmem
  exact (hg.ne_of_mem (hg.body_mem r hr _ hmem)).1 rfl

/-- Rules are numbered by their places, so their sides are all there is to them. -/
theorem rules_eq (hg : g.Checked) (hh : h.Checked)
    (hsides : g.rules.map sides = h.rules.map sides) : g.rules = h.rules := by
  refine List.ext_getElem? ?_
  intro n
  have hn : (g.rules[n]?).map sides = (h.rules[n]?).map sides := by
    rw [← List.getElem?_map, ← List.getElem?_map, hsides]
  cases hr : g.rules[n]? with
  | none =>
      rw [hr, Option.map_none, eq_comm, Option.map_eq_none_iff] at hn
      exact hn.symm
  | some r =>
      rw [hr, Option.map_some, eq_comm, Option.map_eq_some_iff] at hn
      obtain ⟨q, hq, hsame⟩ := hn
      obtain ⟨hlhs, hwritten⟩ := Prod.mk.inj hsame
      have hbody := body_eq_of_written (hh.epsilon_notMem_body (List.mem_of_getElem? hq))
        (hg.epsilon_notMem_body (List.mem_of_getElem? hr)) hwritten
      have hid : q.id = r.id := (hh.numbered n q hq).trans (hg.numbered n r hr).symm
      rw [hq]
      cases q
      cases r
      simp_all

/-- The symbols in the text of a rule are declared, or `ε`. -/
theorem enclosed_sides (hg : g.Checked)
    (henclosed : ∀ s, s ∈ g.terminals ∨ s ∈ g.nonterminals → Enclosed s.toList) :
    ∀ r ∈ g.rules.map sides, Enclosed r.1.toList ∧ ∀ s ∈ r.2, Enclosed s.toList := by
  intro _ hmem
  obtain ⟨r, hr, rfl⟩ := List.mem_map.mp hmem
  refine ⟨henclosed r.lhs (Or.inr (hg.lhs_mem r hr)), ?_⟩
  intro s hs
  rw [show (sides r).2 = if r.body.isEmpty then [Symbol.epsilon] else r.body from rfl] at hs
  split at hs
  · -- a text of one character has no room for a quote and a delimiter
    obtain rfl := List.mem_singleton.mp hs
    intro c _ hinfix
    exact absurd hinfix.length_le (show ¬ 2 ≤ 1 by decide)
  · exact henclosed s (hg.body_mem r hr s hs)

end Checked

/-- **Signatures identify grammars whose symbols are enclosed.**  Let two grammars be
    assembled, and possibly augmented, and let no symbol of theirs have a quote
    followed by a comma or a closing bracket in it.  Then they have the same signature
    if and only if they have the same start symbol, the same terminals, the same
    nonterminals and the same rules. -/
theorem signature_eq_iff {g h : Grammar} (hg : g.Made) (hh : h.Made)
    (hgsymbols : ∀ s, s ∈ g.terminals ∨ s ∈ g.nonterminals → Enclosed s.toList)
    (hhsymbols : ∀ s, s ∈ h.terminals ∨ s ∈ h.nonterminals → Enclosed s.toList) :
    g.signature = h.signature ↔ g.SameContent h := by
  obtain ⟨hg, -⟩ := hg.checked
  obtain ⟨hh, -⟩ := hh.checked
  constructor
  · intro heq
    -- read from the left: each list ends where its bracket
    -- says so, and what is behind it is compared next
    have htexts := congrArg String.toList heq
    rw [toList_signature, toList_signature, List.append_cancel_left_eq] at htexts
    obtain ⟨hnonterminals, htexts⟩ := delimited_quoted.listed_inj quoted_head
      (fun s hs => hgsymbols s (Or.inr hs)) (fun s hs => hhsymbols s (Or.inr hs)) htexts
    rw [List.append_cancel_left_eq] at htexts
    obtain ⟨hsides, htexts⟩ := delimited_ruleText.listed_inj ruleText_head
      (hg.enclosed_sides hgsymbols) (hh.enclosed_sides hhsymbols) htexts
    rw [List.append_cancel_left_eq] at htexts
    obtain ⟨hstart, -, htexts⟩ := delimited_quoted (hgsymbols g.start (Or.inr hg.start_mem))
      (hhsymbols h.start (Or.inr hh.start_mem)) rfl rfl htexts
    rw [List.append_cancel_left_eq] at htexts
    obtain ⟨hterminals, -⟩ := delimited_quoted.listed_inj quoted_head
      (fun s hs => hgsymbols s (Or.inl hs)) (fun s hs => hhsymbols s (Or.inl hs)) htexts
    exact ⟨hstart, hterminals, hnonterminals, hg.rules_eq hh hsides⟩
  · intro hsame
    rw [hsame.eq_with]
    rfl

/-! ## Examples -/

/-- A rule whose terminals are a quote and a quoted letter. -/
def quotingGrammar : Grammar :=
  { name := "quoting", start := "S", terminals := ["\"", "\"a\""], nonterminals := ["S"]
    rules := [{ id := 0, lhs := "S", body := ["\"", "\"a\""] }, { id := 1, lhs := "S", body := [] }] }

/-- The example with quotes in a symbol is a grammar that can be made. -/
theorem made_quoting (name : String) : (quotingGrammar.named name).Made := by
  have h : assemble name "S" ["\"", "\"a\""] ["S"]
      [some { id := 0, lhs := "S", body := ["\"", "\"a\""] }, some { id := 1, lhs := "S", body := [] }]
      = .ok (quotingGrammar.named name) := rfl
  exact .assembled h

/-- Quotes alone do no harm. -/
theorem signature_eq_iff_quoting :
    (∀ s, s ∈ quotingGrammar.terminals ∨ s ∈ quotingGrammar.nonterminals → Enclosed s.toList) ∧
      (quotingGrammar.signature = (quotingGrammar.named "other").signature ↔
        quotingGrammar.SameContent (quotingGrammar.named "other")) := by
  have hsymbols : ∀ s, s ∈ quotingGrammar.terminals ∨ s ∈ quotingGrammar.nonterminals →
      Enclosed s.toList := by
    have hlist : ∀ s ∈ quotingGrammar.terminals ++ quotingGrammar.nonterminals,
        Enclosed s.toList := by decide
    intro s hs
    exact hlist s (List.mem_append.mpr hs)
  exact ⟨hsymbols, signature_eq_iff (made_quoting "quoting") (made_quoting "other") hsymbols hsymbols⟩

/-- **Signatures collide.**  Two symbols with a quote, a comma and a quote between them
    are written like the two symbols apart. -/
theorem signature_collision :
    ∃ g h : Grammar, Bnf.read "pair" "S -> a b" = .ok g ∧ Bnf.read "joined" "S -> a\",\"b" = .ok h ∧
      g.signature = h.signature ∧ g.terminals = ["a", "b"] ∧ h.terminals = ["a\",\"b"] ∧
      ¬ g.SameContent h := by
  refine ⟨{ name := "pair", start := "S", terminals := ["a", "b"], nonterminals := ["S"]
            rules := [{ id := 0, lhs := "S", body := ["a", "b"] }] },
    { name := "joined", start := "S", terminals := ["a\",\"b"], nonterminals := ["S"]
      rules := [{ id := 0, lhs := "S", body := ["a\",\"b"] }] }, ?_, ?_, ?_, rfl, rfl, by decide⟩
  · decide +kernel
  · decide +kernel
  · decide +kernel

end Grammar

end ShiftReduce
