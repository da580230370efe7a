import Mathlib.Algebra.Group.Nat.Even
import Mathlib.Data.List.Infix
import ShiftReduce.Analysis.Basic
import ShiftReduce.Automaton.Dot
import ShiftReduce.Grammar.Bnf

/-! # Labels — where the strings of a drawing end

    A drawing puts the symbols of a grammar into quoted strings.  Whoever reads such
    a string takes every backslash together with the character behind it, and stops
    at the first other quote (`readQuoted`).  Escaping puts a backslash before every
    quote but none before a backslash, so it depends on the backslashes in a symbol
    whether that helps: an odd number of them before a quote uncovers the quote, and
    an odd number of them at the end of an edge's label covers the closing one.

    `readOn` is what the reader knows behind a text.  Behind an escaped text it can be
    told from the text as it is written (`readOn_escaped_iff`).  In the label of a
    state something stands behind every symbol, so backslashes at its end do no
    harm.  That makes it exact which labels end where they should
    (`toDot_labels`), and not all of them do (`toDot_swallows_quote`). -/

namespace ShiftReduce

namespace Automaton

/-! ## Reading a quoted string -/

/-- Reads a quoted string from behind its opening quote: what is in it, and what is
    left behind its end. -/
def readQuoted : List Char → Option (List Char × List Char)
  | [] => none
  | '"' :: t => some ([], t)
  | '\\' :: c :: t => (readQuoted t).map fun read => ('\\' :: c :: read.1, read.2)
  | c :: t => (readQuoted t).map fun read => (c :: read.1, read.2)

/-- Reads on in a string: whether a backslash has taken the next character, or `none`
    if the string has ended. -/
def readOn : Bool → List Char → Option Bool
  | taken, [] => some taken
  | true, _ :: t => readOn false t
  | false, c :: t => if c = '"' then none else readOn (c == '\\') t

/-- Reading on takes up where the text before has ended. -/
theorem readOn_append (taken : Bool) (u v : List Char) :
    readOn taken (u ++ v) = (readOn taken u).bind fun taken => readOn taken v := by
  fun_induction readOn taken u with
  | case1 taken => rfl
  | case2 c t ih => exact ih
  | case3 t => rfl
  | case4 c t hc ih =>
    rw [List.cons_append, readOn, if_neg hc]
    exact ih

/-- A string that is read leaves no backslash to take the next character. -/
theorem readOn_of_readQuoted {t inner behind : List Char}
    (h : readQuoted t = some (inner, behind)) : readOn false inner = some false := by
  induction t using readQuoted.induct generalizing inner with
  | case1 => cases h
  | case2 t =>
    obtain ⟨rfl, -⟩ := Prod.mk.inj (Option.some.inj h)
    rfl
  | case3 c t ih =>
    obtain ⟨⟨rest, _⟩, hread, hsame⟩ := Option.map_eq_some_iff.mp h
    obtain ⟨rfl, rfl⟩ := Prod.mk.inj hsame
    show readOn false rest = some false
    exact ih hread
  | case4 c t hquote hback ih =>
    rw [readQuoted.eq_4 c t hquote hback] at h
    obtain ⟨⟨rest, _⟩, hread, hsame⟩ := Option.map_eq_some_iff.mp h
    obtain ⟨rfl, rfl⟩ := Prod.mk.inj hsame
    have hne : c ≠ '\\' := by
      rintro rfl
      cases t with
      | nil => cases hread
      | cons d t => exact hback d t rfl rfl
    rw [readOn, if_neg hquote, beq_false_of_ne hne]
    exact ih hread

/-- Conversely, a text that is read through is read as a string before its closing
    quote. -/
theorem readQuoted_of_readOn {inner : List Char} (h : readOn false inner = some false)
    (behind : List Char) : readQuoted (inner ++ '"' :: behind) = some (inner, behind) := by
  induction inner using readQuoted.induct with
  | case1 => rfl
  | case2 t => cases h
  | case3 c t ih =>
    rw [List.cons_append, List.cons_append, readQuoted, ih h]
    rfl
  | case4 c t hquote hback ih =>
    rw [readOn, if_neg hquote] at h
    have hne : c ≠ '\\' := by
      rintro rfl
      cases t with
      | nil => cases h
      | cons d t => exact hback d t rfl rfl
    rw [beq_false_of_ne hne] at h
    rw [List.cons_append, readQuoted.eq_4 c _ hquote fun _ _ hc => absurd hc hne, ih h]
    rfl

/-- Read from behind its opening quote, the string is the label, and what is left is
    behind the closing quote. -/
def ReadsBack (label behind : String) : Prop :=
  readQuoted (label ++ "\"" ++ behind).toList = some (label.toList, behind.toList)

/-- Whether a label reads back does not depend on what is behind it. -/
theorem readsBack_iff {label behind : String} :
    ReadsBack label behind ↔ readOn false label.toList = some false := by
  have htext : (label ++ "\"" ++ behind).toList = label.toList ++ '"' :: behind.toList := by simp
  rw [ReadsBack, htext]
  exact ⟨readOn_of_readQuoted, fun h => readQuoted_of_readOn h behind.toList⟩

/-! ## Escaped texts -/

/-- The number of backslashes at the end of a text. -/
def backslashes (t : List Char) : Nat :=
  (t.reverse.takeWhile (· == '\\')).length

/-- Before every quote there is an even number of backslashes. -/
def QuotesCovered (t : List Char) : Prop :=
  ∀ u, u ++ ['"'] <+: t → Even (backslashes u)

/-- A text with its escapes. -/
def escaped (t : List Char) : List Char :=
  t.flatMap fun c => if isLabelMark c then ['\\', c] else [c]

/-- Only backslashes at the very end count. -/
theorem backslashes_concat (t : List Char) (c : Char) :
    backslashes (t ++ [c]) = if c = '\\' then backslashes t + 1 else 0 := by
  rw [backslashes, List.reverse_concat, List.takeWhile_cons]
  by_cases hc : c = '\\'
  · rw [if_pos (by simp [hc]), if_pos hc]
    rfl
  · rw [if_neg (by simp [hc]), if_neg hc]
    rfl

theorem quotesCovered_nil : QuotesCovered [] := by
  intro u h
  simp at h

/-- A quote at the end is covered if an even number of backslashes stands before it. -/
theorem quotesCovered_concat {t : List Char} {c : Char} :
    QuotesCovered (t ++ [c]) ↔ QuotesCovered t ∧ (c = '"' → Even (backslashes t)) := by
  constructor
  · intro h
    refine ⟨fun u hu => h u (hu.trans (List.prefix_append _ _)), ?_⟩
    rintro rfl
    exact h t List.prefix_rfl
  · rintro ⟨h, hlast⟩ u hu
    rcases List.prefix_concat_iff.mp hu with heq | hu
    · obtain ⟨rfl, hc⟩ := List.append_inj' heq rfl
      exact hlast (List.cons.inj hc).1.symm
    · exact h u hu

/-- What one character does to a reader. -/
theorem readOn_escaped_char (taken : Bool) (c : Char) :
    readOn taken (escaped [c]) =
      if c = '"' ∧ taken = true then none else some (c == '\\' && !taken) := by
  by_cases hquote : c = '"'
  · subst hquote
    cases taken <;> rfl
  · rw [if_neg fun h => hquote h.1, escaped, List.flatMap_singleton]
    by_cases hmark : isLabelMark c = true
    · have hback : c ≠ '\\' := by
        rintro rfl
        exact absurd hmark (by decide)
      cases taken <;> simp [hmark, readOn, hquote, hback]
    · cases taken <;> simp [hmark, readOn, hquote]

/-- Behind an escaped text a reader is still in the string if and only if all quotes of
    the text are covered, and a backslash has taken the next character if and only if
    an odd number of them is at the end of the text. -/
theorem readOn_escaped_iff {t : List Char} {taken : Bool} :
    readOn false (escaped t) = some taken ↔
      QuotesCovered t ∧ (taken = false ↔ Even (backslashes t)) := by
  induction t using List.reverseRecOn generalizing taken with
  | nil =>
    show some false = some taken ↔ _
    cases taken <;> simp [quotesCovered_nil, backslashes]
  | append_singleton t c ih =>
    have hread : readOn false (escaped (t ++ [c]))
        = (readOn false (escaped t)).bind fun taken => readOn taken (escaped [c]) := by
      rw [escaped, List.flatMap_append]
      exact readOn_append false (escaped t) (escaped [c])
    rw [hread, Option.bind_eq_some_iff, quotesCovered_concat, backslashes_concat]
    simp only [ih, readOn_escaped_char, Bool.exists_bool]
    -- only quotes and backslashes depend on the backslashes before them
    by_cases heven : Even (backslashes t)
    · by_cases hback : c = '\\'
      · subst hback
        cases taken <;> simp [heven, Nat.even_add_one]
      · cases taken <;> simp [heven, hback]
    · by_cases hback : c = '\\'
      · subst hback
        cases taken <;> simp [heven, Nat.even_add_one]
      · by_cases hquote : c = '"'
        · simp [heven, hquote]
        · cases taken <;> simp [heven, hback, hquote]

/-- A text is read through, once its quotes are escaped, just if they are covered. -/
theorem exists_readOn_escaped {t : List Char} :
    (∃ taken, readOn false (escaped t) = some taken) ↔ QuotesCovered t := by
  constructor
  · rintro ⟨taken, h⟩
    exact (readOn_escaped_iff.mp h).1
  · intro h
    by_cases heven : Even (backslashes t)
    · exact ⟨false, readOn_escaped_iff.mpr ⟨h, iff_of_true rfl heven⟩⟩
    · exact ⟨true, readOn_escaped_iff.mpr ⟨h, iff_of_false Bool.noConfusion heven⟩⟩

instance (t : List Char) : Decidable (QuotesCovered t) :=
  decidable_of_iff ((readOn false (escaped t)).isSome = true)
    (by rw [Option.isSome_iff_exists, exists_readOn_escaped])

example : QuotesCovered ['\\', '\\', '"'] ∧ ¬ QuotesCovered ['\\', '"'] := by decide

theorem toList_escapeLabel (s : String) : (escapeLabel s).toList = escaped s.toList := by
  rw [escapeLabel, String.toList_ofList]
  rfl

/-! ## Symbols between other texts -/

/-- A text without quotes and backslashes. -/
def Plain (t : List Char) : Prop :=
  ∀ c ∈ t, c ≠ '"' ∧ c ≠ '\\'

theorem Plain.append {u v : List Char} (hu : Plain u) (hv : Plain v) : Plain (u ++ v) :=
  List.forall_mem_append.mpr ⟨hu, hv⟩

/-- Nothing in a plain text stops the reader or takes the next character. -/
theorem Plain.readOn_append {u : List Char} (hu : Plain u) (v : List Char) :
    readOn false (u ++ v) = readOn false v := by
  induction u with
  | nil => rfl
  | cons c u ih =>
    obtain ⟨hc, hu⟩ := List.forall_mem_cons.mp hu
    rw [List.cons_append, readOn, if_neg hc.1, beq_false_of_ne hc.2]
    exact ih hu

/-- Backslashes in front of another character do not count. -/
theorem backslashes_append_cons {c : Char} (hback : c ≠ '\\') (u v : List Char) :
    backslashes (u ++ c :: v) = backslashes v := by
  induction v using List.reverseRecOn with
  | nil =>
    rw [backslashes_concat, if_neg hback]
    rfl
  | append_singleton v d ih =>
    rw [← List.cons_append, ← List.append_assoc, backslashes_concat, backslashes_concat, ih]

/-- Texts are covered on both sides of a plain character if and only if they are when
    they are joined by it. -/
theorem quotesCovered_append_cons {c : Char} (hquote : c ≠ '"') (hback : c ≠ '\\')
    (u v : List Char) : QuotesCovered (u ++ c :: v) ↔ QuotesCovered u ∧ QuotesCovered v := by
  induction v using List.reverseRecOn with
  | nil =>
    rw [quotesCovered_concat]
    simp [hquote, quotesCovered_nil]
  | append_singleton v d ih =>
    rw [← List.cons_append, ← List.append_assoc, quotesCovered_concat, quotesCovered_concat, ih,
      backslashes_append_cons hback, and_assoc]

/-- A plain text has no quotes to cover. -/
theorem Plain.quotesCovered {t : List Char} (ht : Plain t) : QuotesCovered t := by
  intro u hu
  exact absurd rfl (ht '"' (hu.mem (List.mem_append_right _ (List.mem_singleton_self _)))).1

/-- Digits are plain. -/
theorem plain_natText (n : Nat) : Plain (toString n).toList := by
  intro c hc
  rw [Nat.toString_eq_ofList_toDigits, String.toList_ofList] at hc
  have hdigit := Nat.isDigit_of_mem_toDigits (by decide) (by decide) hc
  constructor
  · rintro rfl
    exact absurd hdigit (by decide)
  · rintro rfl
    exact absurd hdigit (by decide)

/-- So is a sign before them. -/
theorem plain_intText (z : Int) : Plain (toString z).toList := by
  cases z with
  | ofNat n => exact plain_natText n
  | negSucc n =>
    show Plain ("-" ++ toString (n + 1)).toList
    rw [String.toList_append]
    exact Plain.append (by simp [Plain]) (plain_natText (n + 1))

/-- So are the blanks that a number is padded with. -/
theorem plain_padded (width n : Nat) : Plain (Numeral.padded width n).toList := by
  rw [Numeral.padded, String.toList_append, String.toList_ofList]
  refine Plain.append ?_ (plain_natText n)
  intro c hc
  rw [List.eq_of_mem_replicate hc]
  decide

/-! ## Labels of states -/

/-- A blank separates what is on its two sides. -/
theorem quotesCovered_append_blank (u v : List Char) :
    QuotesCovered (u ++ ' ' :: v) ↔ QuotesCovered u ∧ QuotesCovered v :=
  quotesCovered_append_cons (by decide) (by decide) u v

/-- A dot or an arrow behind a blank. -/
theorem quotesCovered_append_sign {c : Char} (hquote : c ≠ '"') (hback : c ≠ '\\')
    (u : List Char) : QuotesCovered (u ++ [' ', c]) ↔ QuotesCovered u := by
  rw [quotesCovered_append_blank, ← List.nil_append [c], quotesCovered_append_cons hquote hback]
  simp [quotesCovered_nil]

/-- The symbols of an item stand between blanks, so that each of them is judged for
    itself. -/
theorem quotesCovered_dotted (dot : Int) (body : List Symbol) (k : Int) (u : List Char) :
    QuotesCovered (u ++ (Item.dotted dot k body).toList) ↔
      QuotesCovered u ∧ ∀ x ∈ body, QuotesCovered x.toList := by
  have hdot : ∀ u, QuotesCovered (u ++ [' ', '•']) ↔ QuotesCovered u :=
    quotesCovered_append_sign (by decide) (by decide)
  -- over the body, with the text before it free to grow by a symbol at a time
  induction body generalizing k u with
  | nil =>
    rw [Item.dotted]
    by_cases hk : k ≤ dot
    · rw [if_pos hk]
      simpa using hdot u
    · rw [if_neg hk]
      simp
  | cons x body ih =>
    -- the dot, where it stands here, goes to the text before the symbol
    have hsplit : ∃ w, u ++ (Item.dotted dot k (x :: body)).toList
        = (w ++ ' ' :: x.toList) ++ (Item.dotted dot (k + 1) body).toList ∧
        (QuotesCovered w ↔ QuotesCovered u) := by
      rw [Item.dotted]
      by_cases hk : k == dot
      · refine ⟨u ++ [' ', '•'], ?_, hdot u⟩
        rw [if_pos hk]
        simp
      · refine ⟨u, ?_, Iff.rfl⟩
        rw [if_neg hk]
        simp
    obtain ⟨w, hw, hcovered⟩ := hsplit
    rw [hw, List.forall_mem_cons, ← and_assoc, ← hcovered, ← quotesCovered_append_blank]
    exact ih (k + 1) (w ++ ' ' :: x.toList)

/-- The quotes in the text of an item are covered if and only if they are in the
    symbols of its rule. -/
theorem quotesCovered_format (g : Grammar) (i : Item) :
    QuotesCovered (i.format g).toList ↔
      ∀ r, g.rule? i.rule = some r → ∀ x ∈ r.lhs :: r.body, QuotesCovered x.toList := by
  rw [Item.format]
  cases g.rule? i.rule with
  | none =>
    have hplain : Plain i.text.toList := by
      simp only [Item.text, String.toList_append]
      refine Plain.append (Plain.append (Plain.append (Plain.append ?_ (plain_intText _)) ?_)
        (plain_intText _)) ?_ <;> simp [Plain]
    simpa using hplain.quotesCovered
  | some r =>
    have hsplit : (r.lhs ++ " ➞" ++ Item.dotted i.dot 0 r.body).toList
        = (r.lhs.toList ++ [' ', '➞']) ++ (Item.dotted i.dot 0 r.body).toList := by
      simp
    dsimp only
    rw [hsplit, quotesCovered_dotted, quotesCovered_append_sign (by decide) (by decide)]
    simp

/-- A backslash at the end of a line takes the one of the line break with it, which
    leaves a letter. -/
theorem readOn_line {t v : List Char} {taken : Bool} :
    readOn false (escaped t ++ '\\' :: 'l' :: v) = some taken ↔
      QuotesCovered t ∧ readOn false v = some taken := by
  have hbreak : ∀ before, readOn before ('\\' :: 'l' :: v) = readOn false v := by
    intro before
    cases before <;> rfl
  rw [readOn_append, Option.bind_eq_some_iff, ← exists_readOn_escaped]
  simp only [hbreak]
  exact exists_and_right

/-- Lines end in `\l`, so that each of them is judged for itself. -/
theorem readOn_lines {lines : List (List Char)} {v : List Char} {taken : Bool} :
    readOn false (['\\', 'l'].intercalate (lines.map escaped) ++ '\\' :: 'l' :: v) = some taken ↔
      (∀ t ∈ lines, QuotesCovered t) ∧ readOn false v = some taken := by
  induction lines with
  | nil =>
    show readOn false v = some taken ↔ _
    simp
  | cons t lines ih =>
    rw [List.forall_mem_cons, and_assoc]
    cases lines with
    | nil =>
      rw [List.map_singleton, List.intercalate_singleton, readOn_line]
      simp
    | cons t' lines =>
      have hsplit : ['\\', 'l'].intercalate ((t :: t' :: lines).map escaped) ++ '\\' :: 'l' :: v
          = escaped t ++ '\\' :: 'l' :: (['\\', 'l'].intercalate ((t' :: lines).map escaped)
            ++ '\\' :: 'l' :: v) := by
        simp [List.intercalate_cons_cons]
      rw [hsplit, readOn_line, ih]

/-- The label of a state ends at its closing quote if and only if the quotes in all
    symbols of its rules are covered. -/
theorem readsBack_stateLabel_iff {g : Grammar} {s : State} {behind : String} :
    ReadsBack (stateLabel g s) behind ↔
      ∀ i ∈ s.items, ∀ r, g.rule? i.rule = some r →
        ∀ x ∈ r.lhs :: r.body, QuotesCovered x.toList := by
  have hhead : Plain ("\x7b" ++ Numeral.padded 3 s.id ++ " | ").toList := by
    simp only [String.toList_append]
    refine Plain.append (Plain.append ?_ (plain_padded 3 s.id)) ?_ <;> simp [Plain]
  have hlines : (itemLines g s ++ "\x7d").toList
      = ['\\', 'l'].intercalate
          (((ItemSet.sorted s.items).map fun i => (i.format g).toList).map escaped)
        ++ '\\' :: 'l' :: ['\x7d'] := by
    have hitems : String.toList ∘ (fun i : Item => escapeLabel (i.format g))
        = escaped ∘ fun i => (i.format g).toList := by
      funext i
      exact toList_escapeLabel (i.format g)
    simp [itemLines, String.toList_intercalate, hitems]
  have hlabel : (stateLabel g s).toList
      = ("\x7b" ++ Numeral.padded 3 s.id ++ " | ").toList ++ (itemLines g s ++ "\x7d").toList := by
    rw [← String.toList_append, stateLabel, String.append_assoc]
  rw [readsBack_iff, hlabel, hhead.readOn_append, hlines, readOn_lines, List.forall_mem_map]
  simp only [quotesCovered_format, ItemSet.sorted, mem_sortBy]
  exact and_iff_left rfl

/-- The label of a move is the escaped symbol alone, so the backslashes at its end
    count as well. -/
theorem readsBack_escapeLabel_iff {x : Symbol} {behind : String} :
    ReadsBack (escapeLabel x) behind ↔
      QuotesCovered x.toList ∧ Even (backslashes x.toList) := by
  rw [readsBack_iff, toList_escapeLabel, readOn_escaped_iff]
  simp

/-! ## Drawings -/

/-- A label stands in a text. -/
def Carries (text label : String) : Prop :=
  ∃ before behind, text = before ++ "label=\"" ++ label ++ "\"" ++ behind

/-- What is joined contains each of its parts. -/
theorem exists_join {line : String} {lines : List String} (h : line ∈ lines) :
    ∃ before behind, String.join lines = before ++ line ++ behind := by
  obtain ⟨front, tail, rfl⟩ := List.append_of_mem h
  refine ⟨String.join front, String.join tail, ?_⟩
  rw [String.join_append, String.join_cons, String.append_assoc]

/-- The drawing has the label of every state. -/
theorem carries_stateLabel {a : Automaton} {s : State} (hs : s ∈ a.states) :
    Carries a.toDot (stateLabel a.grammar s) := by
  obtain ⟨before, behind, hlines⟩ :=
    exists_join (List.mem_map_of_mem (f := nodeLine a.grammar) hs)
  refine ⟨drawingHead ++ before ++ nodeName s.id ++ " [fillcolor="
    ++ (if s.accepts then "lightgray" else "white") ++ " ",
    "]\n" ++ behind ++ String.join (a.states.flatMap fun s => s.transitions.map (edgeLine s.id))
      ++ "\x7d\n", ?_⟩
  have hspace : (" label=\"" : String) = " " ++ "label=\"" := rfl
  have hclose : ("\"]\n" : String) = "\"" ++ "]\n" := rfl
  rw [toDot, hlines, nodeLine, hspace, hclose]
  simp only [String.append_assoc]

/-- The drawing has the label of every edge. -/
theorem carries_escapeLabel {a : Automaton} {s : State} (hs : s ∈ a.states) {t : Symbol × Nat}
    (ht : t ∈ s.transitions) : Carries a.toDot (escapeLabel t.1) := by
  have hline : edgeLine s.id t ∈ a.states.flatMap fun s => s.transitions.map (edgeLine s.id) :=
    List.mem_flatMap.mpr ⟨s, hs, List.mem_map_of_mem ht⟩
  obtain ⟨before, behind, hlines⟩ := exists_join hline
  refine ⟨drawingHead ++ String.join (a.states.map (nodeLine a.grammar)) ++ before
    ++ nodeName s.id ++ " -> " ++ nodeName t.2 ++ " [", "]\n" ++ behind ++ "\x7d\n", ?_⟩
  have hbracket : (" [label=\"" : String) = " [" ++ "label=\"" := rfl
  have hclose : ("\"]\n" : String) = "\"" ++ "]\n" := rfl
  rw [toDot, hlines, edgeLine, hbracket, hclose]
  simp only [String.append_assoc]

/-- **Where the labels of a drawing end.**  There is a label in it for every state and
    for every move.  The label of a state ends at the quote that closes it if and only
    if, in all symbols of the rules of its items, every quote has an even number of
    backslashes before it.  The label of a move ends there if and only if that holds
    for its symbol, and there is an even number of backslashes at the symbol's end,
    too. -/
theorem toDot_labels (a : Automaton) :
    (∀ s ∈ a.states,
      Carries a.toDot (stateLabel a.grammar s) ∧
        ∀ behind, ReadsBack (stateLabel a.grammar s) behind ↔
          ∀ i ∈ s.items, ∀ r, a.grammar.rule? i.rule = some r →
            ∀ x ∈ r.lhs :: r.body, QuotesCovered x.toList) ∧
      ∀ s ∈ a.states, ∀ t ∈ s.transitions,
        Carries a.toDot (escapeLabel t.1) ∧
          ∀ behind, ReadsBack (escapeLabel t.1) behind ↔
            QuotesCovered t.1.toList ∧ Even (backslashes t.1.toList) :=
  ⟨fun _ hs => ⟨carries_stateLabel hs, fun _ => readsBack_stateLabel_iff⟩,
    fun _ hs _ ht => ⟨carries_escapeLabel hs ht, fun _ => readsBack_escapeLabel_iff⟩⟩

/-- An augmented grammar with a terminal that ends in a backslash. -/
def backslashGrammar : Grammar :=
  { name := "backslash", start := "S'", innerStart := some "S", terminals := ["a\\"]
    nonterminals := ["S'", "S"]
    rules := [{ id := 0, lhs := "S'", body := ["S"] }, { id := 1, lhs := "S", body := ["a\\"] }] }

/-- The start state of its automaton. -/
def backslashStart : State :=
  { id := 0, items := [{ rule := 0, dot := 0 }, { rule := 1, dot := 0 }]
    transitions := [("S", 1), ("a\\", 2)] }

/-- **A label can swallow its closing quote.**  Nothing is escaped in a terminal that
    ends in a backslash, so the label of its move goes on. -/
theorem toDot_swallows_quote :
    ∃ g a, Grammar.Bnf.read "backslash" "S -> a\\" = .ok g ∧ Analysis.make g = .ok a ∧
      ∃ s ∈ (build a.grammar).states, ∃ t ∈ s.transitions, ∃ before behind,
        (build a.grammar).toDot = before ++ "label=\"" ++ escapeLabel t.1 ++ "\"" ++ behind ∧
          ¬ ReadsBack (escapeLabel t.1) behind := by
  have hread : Grammar.Bnf.read "backslash" "S -> a\\" = .ok
      { name := "backslash", start := "S", terminals := ["a\\"], nonterminals := ["S"]
        rules := [{ id := 0, lhs := "S", body := ["a\\"] }] } := by decide +kernel
  have hstart : backslashStart ∈ (build backslashGrammar).states := by decide +kernel
  have hmove : ("a\\", 2) ∈ backslashStart.transitions := by decide
  obtain ⟨before, behind, htext⟩ := carries_escapeLabel hstart hmove
  refine ⟨_, Analysis.ofGrammar backslashGrammar, hread, rfl, backslashStart, hstart, _, hmove,
    before, behind, htext, ?_⟩
  rw [readsBack_escapeLabel_iff]
  rintro ⟨-, heven⟩
  exact absurd heven (by decide)

end Automaton

end ShiftReduce
