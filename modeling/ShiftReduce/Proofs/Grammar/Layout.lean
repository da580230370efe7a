import Mathlib.Data.List.Infix
import ShiftReduce.Proofs.Grammar.Reading

/-! # Layout — the reader finds the rules in every way to write them

    `Layout rules text` says that the text writes the rules down: symbols with
    blanks between them, alternatives with bars between them, behind the head and
    an arrow or on lines of their own, and blank lines and comments anywhere.  Each
    level of the layout is a relation, and what the reader makes of its texts is
    proved level by level: the words of a body (`Symbols.words`), the bodies of
    alternatives (`Alternatives.denote`), the rules that a line adds
    (`Content.readContent`) and those of all lines (`Lines.readLines`).  So the
    reader undoes every layout (`read_layout`). -/

namespace ShiftReduce

namespace Grammar

namespace Bnf

/-! ## Ways to write rules down -/

/-- A rule that can be written in front of and behind an arrow. -/
@[mk_iff]
structure Legible (r : Symbol × List Symbol) : Prop extends Readable r where
  bar : '|' ∉ r.1.toList
  arrow : ∀ a ∈ arrows, ¬ a <:+: r.1.toList

instance : DecidablePred Legible := fun r => decidable_of_iff' _ (legible_iff r)

namespace Layout

/-- Symbols with blanks between them, and blanks around them where one likes. -/
inductive Symbols : List Symbol → List Char → Prop where
  | nil : Symbols [] []
  | blank {b : Char} {ss : List Symbol} {cs : List Char} (hb : Text.isBlank b = true)
      (h : Symbols ss cs) : Symbols ss (b :: cs)
  | symbol {s : Symbol} {ss : List Symbol} {cs : List Char}
      (hcs : ∀ c ∈ cs.head?, Text.isBlank c = true) (h : Symbols ss cs) :
      Symbols (s :: ss) (s.toList ++ cs)

/-- A body is written as its symbols, the empty one also as a word for it. -/
inductive Alternative : List Symbol → List Char → Prop where
  | symbols {ss : List Symbol} {cs : List Char} (h : Symbols ss cs) : Alternative ss cs
  | empty {w : Symbol} {cs : List Char} (hw : w = "ε" ∨ w = "eps" ∨ w = "''")
      (h : Symbols [w] cs) : Alternative [] cs

/-- Bodies with bars between them. -/
inductive Alternatives : List (List Symbol) → List Char → Prop where
  | one {b : List Symbol} {cs : List Char} (h : Alternative b cs) : Alternatives [b] cs
  | cons {b : List Symbol} {cs : List Char} {bodies : List (List Symbol)} {rest : List Char}
      (h : Alternative b cs) (hrest : Alternatives bodies rest) :
      Alternatives (b :: bodies) (cs ++ '|' :: rest)

/-- What a line writes behind the rules of the lines above: nothing, alternatives of a
    head, or more alternatives of the head of the last rule. -/
inductive Content (rules : List (Symbol × List Symbol)) :
    List (Symbol × List Symbol) → List Char → Prop where
  | blank {u : List Char} (hu : Text.Blanks u) : Content rules rules u
  | headed {head : Symbol} {bodies : List (List Symbol)} {u v arrow text : List Char}
      (hu : Text.Blanks u) (hv : Text.Blanks v) (harrow : arrow ∈ arrows)
      (h : Alternatives bodies text) :
      Content rules (rules ++ alternativesOf head bodies) (u ++ (head.toList ++ v ++ arrow ++ text))
  | continued {head : Symbol} {bodies : List (List Symbol)} {u text : List Char}
      (hu : Text.Blanks u) (hlast : rules.getLast?.map Prod.fst = some head)
      (h : Alternatives bodies text) :
      Content rules (rules ++ alternativesOf head bodies) (u ++ '|' :: text)

/-- A line is its content, perhaps a comment, and perhaps a carriage return. -/
inductive Line (rules rules' : List (Symbol × List Symbol)) : List Char → Prop where
  | mk {text comment ending : List Char} (hcontent : Content rules rules' text)
      (hcomment : comment = [] ∨ ∃ t, comment = '#' :: t) (hending : ending = [] ∨ ending = ['\r'])
      (hfeed : '\n' ∉ text ++ comment ++ ending)
      (hlength : (Bytes.ofText (String.ofList (text ++ comment ++ ending))).length < lineLimit) :
      Line rules rules' (text ++ comment ++ ending)

/-- Lines that lead from the rules above them to the rules below them. -/
inductive Lines : List (Symbol × List Symbol) → List (Symbol × List Symbol) →
    List (List Char) → Prop where
  | nil {rules : List (Symbol × List Symbol)} : Lines rules rules []
  | cons {rules rules' rules'' : List (Symbol × List Symbol)} {line : List Char}
      {rest : List (List Char)} (hline : Line rules rules' line) (hrest : Lines rules' rules'' rest) :
      Lines rules rules'' (line :: rest)

end Layout

/-- The text writes the rules, line by line. -/
def Layout (rules : List (Symbol × List Symbol)) (text : String) : Prop :=
  ∃ lines, Layout.Lines [] rules lines ∧ text.toList = ['\n'].intercalate lines

/-! ## Parts of a line -/

/-- A name is not empty and has no blanks in it. -/
theorem IsName.solid {s : Symbol} (h : IsName s) : s.toList ≠ [] ∧ Text.Solid s.toList := by
  refine ⟨?_, fun c hc => (h.plain c hc).1⟩
  intro hnil
  exact h.nonempty (String.toList_eq_nil_iff.mp hnil)

/-- A text whose words are names is the body of these names. -/
theorem body_of_words {ss : List Symbol} {cs : List Char} (hss : ∀ s ∈ ss, IsName s)
    (h : Text.words cs = ss.map String.toList) : body cs = .ok ss := by
  have hsymbols : (Text.words cs).map String.ofList = ss := by
    rw [h, List.map_map]
    exact List.map_id'' (fun _ => String.ofList_toList) ss
  have hend : ss.contains Symbol.endMarker = false := by
    rw [← Bool.not_eq_true, List.contains_iff_mem]
    intro hmem
    exact (hss _ hmem).notEnd rfl
  have hfilter : (ss.filter fun s => !isEmptyWord s) = ss := by
    refine List.filter_eq_self.mpr ?_
    intro s hs
    rw [(hss s hs).notEmptyWord]
    rfl
  simp only [body, hsymbols, hend, hfilter]
  rfl

/-- A word for the empty body denotes it. -/
theorem body_of_emptyWord {w : Symbol} {cs : List Char} (hw : w = "ε" ∨ w = "eps" ∨ w = "''")
    (h : Text.words cs = [w.toList]) : body cs = .ok [] := by
  rw [body, h, List.map_singleton, String.ofList_toList]
  rcases hw with rfl | rfl | rfl <;> rfl

/-- A name in front of blanks is a head. -/
theorem headOf_name {head : Symbol} (hhead : IsName head) {v : List Char} (hv : Text.Blanks v) :
    headOf (head.toList ++ v) = .ok head := by
  obtain ⟨hne, hsolid⟩ := hhead.solid
  have hwords : Text.words (head.toList ++ v) = [head.toList] := by
    rw [Text.words_append_blanks hv, Text.words_of_solid hne hsolid]
  have hreserved : (isEmptyWord head || head == Symbol.endMarker) = false := by
    rw [hhead.notEmptyWord, Bool.false_or, beq_eq_false_iff_ne]
    exact hhead.notEnd
  simp only [headOf, hwords, Text.trim_of_words hwords, String.ofList_toList, hreserved]
  rfl

/-- An arrow is made up of characters that are no blanks. -/
theorem arrows_solid : ∀ a ∈ arrows, Text.Solid a := by
  decide

theorem arrows_ne_nil : ∀ a ∈ arrows, a ≠ [] := by
  decide

/-- Only the whole of an arrow begins like an arrow. -/
theorem arrows_apart :
    ∀ a ∈ arrows, ∀ t ∈ a.tails, t ≠ [] → t ≠ a → ∀ b ∈ arrows, ¬ t <+: b ∧ ¬ b <+: t := by
  decide

/-- Blanks make no arrow. -/
theorem infix_of_append_blanks {xs v a : List Char} (ha : a ∈ arrows) (hv : Text.Blanks v)
    (h : a <:+: xs ++ v) : a <:+: xs := by
  have hsolid := arrows_solid a ha
  rcases List.infix_append_iff_ne_nil.mp h with h | h | ⟨x, y, hx, hy, rfl, hxs, hys⟩
  · exact h
  · obtain ⟨c, cs, rfl⟩ := List.exists_cons_of_ne_nil (arrows_ne_nil a ha)
    have hblank := hv c (h.subset List.mem_cons_self)
    rw [hsolid c List.mem_cons_self] at hblank
    exact nomatch hblank
  · obtain ⟨c, cs, rfl⟩ := List.exists_cons_of_ne_nil hy
    have hblank := hv c (hys.subset List.mem_cons_self)
    rw [hsolid c (by simp)] at hblank
    exact nomatch hblank

/-- A line that begins with an arrow is cut at once. -/
theorem cutAtArrow_here {arrow : List Char} (harrow : arrow ∈ arrows) (text : List Char) :
    cutAtArrow (arrow ++ text) = some ([], text) := by
  simp only [arrows, List.mem_cons, List.not_mem_nil, or_false] at harrow
  rcases harrow with rfl | rfl | rfl <;> rfl

/-- A text without arrows in front of an arrow is what the line is cut at it from. -/
theorem cutAtArrow_append {xs arrow : List Char} (hxs : ∀ a ∈ arrows, ¬ a <:+: xs)
    (harrow : arrow ∈ arrows) (text : List Char) :
    cutAtArrow (xs ++ (arrow ++ text)) = some (xs, text) := by
  induction xs with
  | nil => exact cutAtArrow_here harrow text
  | cons c xs ih =>
      have hnone : (arrows.find? fun a => a.isPrefixOf (c :: (xs ++ (arrow ++ text)))) = none := by
        refine List.find?_eq_none.mpr ?_
        intro a ha hprefix
        have hbegin : a <+: (c :: xs) ++ (arrow ++ text) := List.isPrefixOf_iff_prefix.mp hprefix
        -- it is inside the text, or what it has in common with the arrow is the end of one
        rcases List.prefix_or_prefix_of_prefix hbegin (List.prefix_append _ _) with hin | ⟨t, rfl⟩
        · exact hxs a ha hin.isInfix
        · have hrest : t <+: arrow ++ text := (List.prefix_append_right_inj (c :: xs)).mp hbegin
          have htail : t ∈ (c :: xs ++ t).tails := (List.mem_tails _ _).mpr (List.suffix_append _ t)
          have hne : t ≠ [] := by
            rintro rfl
            exact hxs _ ha (by rw [List.append_nil])
          have hproper : t ≠ c :: xs ++ t := by
            intro heq
            have hlength := congrArg List.length heq
            rw [List.cons_append, List.length_cons, List.length_append] at hlength
            omega
          obtain ⟨hleft, hright⟩ := arrows_apart _ ha t htail hne hproper arrow harrow
          rcases List.prefix_or_prefix_of_prefix hrest (List.prefix_append arrow text) with hin | hin
          · exact hleft hin
          · exact hright hin
      rw [List.cons_append, cutAtArrow, hnone, ih ?_]
      · rfl
      · intro a ha hin
        exact hxs a ha (List.infix_cons hin)

section Headed

variable {head : Symbol} {u v arrow : List Char}

/-- A line of a head is trimmed in front of the head and at its end. -/
theorem trim_headed (hhead : IsName head) (hu : Text.Blanks u) (harrow : arrow ∈ arrows)
    (text : List Char) :
    Text.trim (u ++ (head.toList ++ v ++ arrow ++ text))
      = head.toList ++ v ++ (arrow ++ Text.trimEnd text) := by
  obtain ⟨hne, hsolid⟩ := hhead.solid
  have hfirst : ∀ c ∈ (head.toList ++ v ++ arrow).head?, Text.isBlank c = false := by
    rw [List.append_assoc, List.head?_append_of_ne_nil _ hne]
    exact fun c hc => hsolid c (List.mem_of_mem_head? hc)
  have hlast : ∀ c ∈ (head.toList ++ v ++ arrow).getLast?, Text.isBlank c = false := by
    rw [List.getLast?_append_of_ne_nil _ (arrows_ne_nil arrow harrow)]
    exact fun c hc => arrows_solid arrow harrow c (List.mem_of_mem_getLast? hc)
  rw [Text.trim_around hu (by simp [hne]) hfirst hlast, List.append_assoc]

/-- A head, an arrow and alternatives add the rules that they denote. -/
theorem readContent_of_head (hhead : IsName head) (hbar : '|' ∉ head.toList)
    (hfree : ∀ a ∈ arrows, ¬ a <:+: head.toList) (hv : Text.Blanks v) (harrow : arrow ∈ arrows)
    {rules : List (Symbol × List Symbol)} {text : List Char} {bodies : List (List Symbol)}
    (hbodies : Alternatives text bodies) :
    (State.after rules).readContent (head.toList ++ v ++ (arrow ++ text))
      = .ok (State.after (rules ++ alternativesOf head bodies)) := by
  obtain ⟨hne, -⟩ := hhead.solid
  have hbegin : ¬ ∃ rest, head.toList ++ v ++ (arrow ++ text) = '|' :: rest := by
    rintro ⟨rest, heq⟩
    obtain ⟨c, cs, hcs⟩ := List.exists_cons_of_ne_nil hne
    rw [hcs] at heq hbar
    obtain ⟨rfl, -⟩ := List.cons.inj heq
    exact hbar List.mem_cons_self
  have hcut : cutAtArrow (head.toList ++ v ++ (arrow ++ text)) = some (head.toList ++ v, text) :=
    cutAtArrow_append (fun a ha hin => hfree a ha (infix_of_append_blanks ha hv hin)) harrow text
  rw [readContent_headed (by simp [hne]) hbegin, hcut]
  show headOf (head.toList ++ v) >>= _ = _
  rw [headOf_name hhead hv]
  exact addBodies_newHead.mpr ⟨bodies, hbodies, rfl⟩

end Headed

/-- The carriage return at the end of a line makes no difference to its content. -/
theorem content_eq (line : List Char) :
    content line = Text.trim (line.takeWhile fun c => c != '#') := by
  rw [content, dropReturn]
  split
  · rename_i hreturn
    obtain ⟨front, rfl⟩ := List.getLast?_eq_some_iff.mp hreturn
    rw [List.dropLast_concat, List.takeWhile_append]
    split
    · rename_i hlength
      have hfront : front.takeWhile (fun c => c != '#') = front :=
        (List.takeWhile_prefix _).eq_of_length hlength
      rw [hfront, Text.trim_append_blanks (by decide)]
    · rfl
  · rfl

/-- The content of a line is what stands in front of its comment, trimmed. -/
theorem content_line {text comment ending : List Char} (htext : '#' ∉ text)
    (hcomment : comment = [] ∨ ∃ t, comment = '#' :: t) (hending : ending = [] ∨ ending = ['\r']) :
    content (text ++ comment ++ ending) = Text.trim text := by
  have htake : ∀ c ∈ text, (c != '#') = true := by
    intro c hc
    refine bne_iff_ne.mpr ?_
    rintro rfl
    exact htext hc
  have hbehind : Text.Blanks ((comment ++ ending).takeWhile fun c => c != '#') := by
    rcases hcomment with rfl | ⟨t, rfl⟩
    · rcases hending with rfl | rfl <;> decide
    · exact nofun
  rw [content_eq, List.append_assoc, List.takeWhile_append_of_pos htake,
    Text.trim_append_blanks hbehind]

namespace Layout

/-! ## Alternatives -/

section Alternatives

variable {ss : List Symbol} {cs : List Char}

/-- Between the symbols there is nothing but blanks. -/
theorem Symbols.mem (h : Symbols ss cs) :
    ∀ c ∈ cs, Text.isBlank c = true ∨ ∃ s ∈ ss, c ∈ s.toList := by
  induction h with
  | nil => exact nofun
  | blank hb _ ih =>
      rintro c (- | ⟨-, hc⟩)
      · exact .inl hb
      · exact ih c hc
  | symbol _ _ ih =>
      intro c hc
      rcases List.mem_append.mp hc with hc | hc
      · exact .inr ⟨_, List.mem_cons_self, hc⟩
      · rcases ih c hc with hblank | ⟨s, hs, hmem⟩
        · exact .inl hblank
        · exact .inr ⟨s, List.mem_cons_of_mem _ hs, hmem⟩

/-- A character that is no blank is in a text of symbols only if it is in a symbol. -/
theorem Symbols.notMem (h : Symbols ss cs) {c : Char} (hc : Text.isBlank c = false)
    (hss : ∀ s ∈ ss, c ∉ s.toList) : c ∉ cs := by
  intro hmem
  rcases h.mem c hmem with hblank | ⟨s, hs, hcs⟩
  · exact nomatch hc.symm.trans hblank
  · exact hss s hs hcs

/-- The words of a text of symbols are the symbols. -/
theorem Symbols.words (h : Symbols ss cs)
    (hss : ∀ s ∈ ss, s.toList ≠ [] ∧ Text.Solid s.toList) :
    Text.words cs = ss.map String.toList := by
  induction h with
  | nil => exact Text.words_nil
  | blank hb _ ih => rw [Text.words_blank_cons hb, ih hss]
  | symbol hcs _ ih =>
      obtain ⟨⟨hne, hsolid⟩, hrest⟩ := List.forall_mem_cons.mp hss
      rw [Text.words_solid_append hne hsolid hcs, ih hrest, List.map_cons]

/-- Conversely, a text is one of its words. -/
theorem Symbols.of_words : ∀ {cs : List Char} {ss : List Symbol},
    Text.words cs = ss.map String.toList → Symbols ss cs
  | [], ss, h => by
      rw [Text.words_nil] at h
      obtain rfl := List.map_eq_nil_iff.mp h.symm
      exact .nil
  | c :: cs, ss, h => by
      cases hc : Text.isBlank c with
      | true =>
          rw [Text.words_blank_cons hc] at h
          exact .blank hc (of_words h)
      | false =>
          obtain ⟨x, rest, hx, hrest, rfl⟩ := Text.exists_solid cs
          have hwords : Text.words (c :: (x ++ rest)) = (c :: x) :: Text.words rest :=
            Text.words_solid_append (List.cons_ne_nil c x) (List.forall_mem_cons.mpr ⟨hc, hx⟩) hrest
          obtain ⟨s, ss, rfl, hs, hss⟩ := List.map_eq_cons_iff.mp (h.symm.trans hwords)
          have hsymbol : Symbols (s :: ss) (s.toList ++ rest) :=
            .symbol hrest (of_words hss.symm)
          rw [hs] at hsymbol
          exact hsymbol
  termination_by cs => cs.length

variable {b : List Symbol} {bodies : List (List Symbol)} {text : List Char}

/-- Apart from the words for the empty body, only symbols have characters that are no
    blanks. -/
theorem Alternative.notMem (h : Alternative b cs) {c : Char} (hc : Text.isBlank c = false)
    (hempty : ∀ w ∈ ["ε", "eps", "''"], c ∉ w.toList) (hb : ∀ s ∈ b, c ∉ s.toList) : c ∉ cs := by
  cases h with
  | symbols h => exact h.notMem hc hb
  | @empty w _ hw h =>
      refine h.notMem hc ?_
      intro s hs
      obtain rfl := List.mem_singleton.mp hs
      exact hempty s (by simpa using hw)

/-- What is written down is denoted, whatever blanks are added or cut off. -/
theorem Alternative.body (h : Alternative b cs) (hb : ∀ s ∈ b, IsName s) {cs' : List Char}
    (hcs' : Text.words cs' = Text.words cs) : body cs' = .ok b := by
  cases h with
  | symbols h => exact body_of_words hb (hcs'.trans (h.words fun s hs => (hb s hs).solid))
  | empty hw h =>
      refine body_of_emptyWord hw (hcs'.trans (h.words ?_))
      rcases hw with rfl | rfl | rfl <;> decide

/-- Alternatives that are written down are denoted, also when they are trimmed. -/
theorem Alternatives.denote (h : Alternatives bodies text)
    (hbodies : ∀ b ∈ bodies, ∀ s ∈ b, IsName s ∧ '|' ∉ s.toList) :
    Bnf.Alternatives (Text.trimEnd text) bodies := by
  induction h with
  | @one b cs h =>
      have hb := hbodies b List.mem_cons_self
      have hbar : '|' ∉ Text.trimEnd cs := by
        obtain ⟨v, -, hcs⟩ := Text.exists_trimEnd cs
        intro hmem
        refine h.notMem (by decide) (by decide) (fun s hs => (hb s hs).2) ?_
        rw [hcs]
        exact List.mem_append_left v hmem
      rw [Bnf.Alternatives, List.splitOn_eq_singleton hbar]
      exact .cons (h.body (fun s hs => (hb s hs).1) (Text.words_trimEnd cs)) .nil
  | @cons b cs bodies rest h _ ih =>
      obtain ⟨hb, hrest⟩ := List.forall_mem_cons.mp hbodies
      have hbar : '|' ∉ cs := h.notMem (by decide) (by decide) fun s hs => (hb s hs).2
      rw [Bnf.Alternatives, Text.trimEnd_append_cons (by decide),
        List.splitOn_append_cons_self_of_not_mem hbar]
      exact .cons (h.body (fun s hs => (hb s hs).1) rfl) (ih hrest)

end Alternatives

/-! ## Lines -/

section Lines

variable {rules rules' : List (Symbol × List Symbol)}

/-- There is at least one alternative, if only an empty one. -/
theorem Alternatives.ne_nil {bodies : List (List Symbol)} {text : List Char}
    (h : Alternatives bodies text) : bodies ≠ [] := by
  cases h <;> exact List.cons_ne_nil _ _

/-- Alternatives have no comment in them. -/
theorem Alternatives.comment_notMem {bodies : List (List Symbol)} {text : List Char}
    (h : Alternatives bodies text) (hbodies : ∀ b ∈ bodies, ∀ s ∈ b, IsName s) : '#' ∉ text := by
  have hone : ∀ {b cs}, Alternative b cs → (∀ s ∈ b, IsName s) → '#' ∉ cs := by
    intro b cs h hb
    refine h.notMem (by decide) (by decide) fun s hs hmem => ?_
    exact ((hb s hs).plain '#' hmem).2 rfl
  induction h with
  | one h => exact hone h (hbodies _ List.mem_cons_self)
  | cons h _ ih =>
      obtain ⟨hb, hrest⟩ := List.forall_mem_cons.mp hbodies
      simp only [List.mem_append, List.mem_cons, not_or]
      exact ⟨hone h hb, by decide, ih hrest⟩

/-- What the last rules say about their head and their bodies. -/
theorem Alternatives.legible {head : Symbol} {bodies : List (List Symbol)} {text : List Char}
    (h : Alternatives bodies text) (hrules : ∀ r ∈ rules ++ alternativesOf head bodies, Legible r) :
    (IsName head ∧ '|' ∉ head.toList ∧ ∀ a ∈ arrows, ¬ a <:+: head.toList) ∧
    ∀ b ∈ bodies, ∀ s ∈ b, IsName s ∧ '|' ∉ s.toList := by
  have hall : ∀ b ∈ bodies, Legible (head, b) := fun b hb =>
    hrules _ (List.mem_append_right rules (List.mem_map_of_mem hb))
  obtain ⟨b, hb⟩ := List.exists_mem_of_ne_nil bodies h.ne_nil
  exact ⟨⟨(hall b hb).head, (hall b hb).bar, (hall b hb).arrow⟩, fun b hb => (hall b hb).body⟩

/-- What is written in a line has no comment in it. -/
theorem Content.comment_notMem {text : List Char} (h : Content rules rules' text)
    (hrules : ∀ r ∈ rules', Legible r) : '#' ∉ text := by
  have hblank : ∀ {u}, Text.Blanks u → '#' ∉ u := fun hu hmem => absurd (hu '#' hmem) (by decide)
  cases h with
  | blank hu => exact hblank hu
  | @headed head bodies u v arrow text hu hv harrow h =>
      obtain ⟨⟨hname, -⟩, hbodies⟩ := h.legible hrules
      have hhead : '#' ∉ head.toList := fun hmem => (hname.plain '#' hmem).2 rfl
      have hbetween : '#' ∉ arrow := (by decide : ∀ a ∈ arrows, '#' ∉ a) arrow harrow
      have htext := h.comment_notMem fun b hb s hs => (hbodies b hb s hs).1
      simp only [List.mem_append, not_or]
      exact ⟨hblank hu, ⟨⟨hhead, hblank hv⟩, hbetween⟩, htext⟩
  | @continued head bodies u text hu _ h =>
      obtain ⟨-, hbodies⟩ := h.legible hrules
      have htext := h.comment_notMem fun b hb s hs => (hbodies b hb s hs).1
      simp only [List.mem_append, List.mem_cons, not_or]
      exact ⟨hblank hu, by decide, htext⟩

/-- The content of a line leads from the rules above it to those below it. -/
theorem Content.readContent {text : List Char} (h : Content rules rules' text)
    (hrules : ∀ r ∈ rules', Legible r) :
    (State.after rules).readContent (Text.trim text) = .ok (State.after rules') := by
  cases h with
  | blank hu =>
      rw [Text.trim_of_blanks hu]
      rfl
  | @headed head bodies u v arrow text hu hv harrow h =>
      obtain ⟨⟨hname, hbar, hfree⟩, hbodies⟩ := h.legible hrules
      rw [trim_headed hname hu harrow]
      exact readContent_of_head hname hbar hfree hv harrow (h.denote hbodies)
  | @continued head bodies u text hu hlast h =>
      obtain ⟨-, hbodies⟩ := h.legible hrules
      rw [Text.trim_blanks_cons hu (by decide), readContent_bar,
        show (State.after rules).current = some head from hlast]
      exact (addBodies_current hlast).mpr ⟨bodies, h.denote hbodies, rfl⟩

/-- A line leads from the rules above it to those below it. -/
theorem Line.readContent {line : List Char} (h : Line rules rules' line)
    (hrules : ∀ r ∈ rules', Legible r) :
    (State.after rules).readContent (content line) = .ok (State.after rules') := by
  obtain ⟨hcontent, hcomment, hending, -, -⟩ := h
  rw [content_line (hcontent.comment_notMem hrules) hcomment hending]
  exact hcontent.readContent hrules

theorem Line.feed_notMem {line : List Char} (h : Line rules rules' line) : '\n' ∉ line := by
  obtain ⟨-, -, -, hfeed, -⟩ := h
  exact hfeed

/-- A line is within the limit. -/
theorem Line.length_lt {line : List Char} (h : Line rules rules' line) :
    (Bytes.ofText (String.ofList line)).length < lineLimit := by
  obtain ⟨-, -, -, -, hlength⟩ := h
  exact hlength

/-- A line only adds rules. -/
theorem Line.subset {line : List Char} (h : Line rules rules' line) : rules ⊆ rules' := by
  obtain ⟨hcontent, -, -, -, -⟩ := h
  cases hcontent with
  | blank _ => exact List.Subset.refl rules
  | headed _ _ _ _ => exact List.subset_append_left rules _
  | continued _ _ _ => exact List.subset_append_left rules _

/-- Reading on loses no rule. -/
theorem Lines.subset {lines : List (List Char)} (h : Lines rules rules' lines) :
    rules ⊆ rules' := by
  induction h with
  | nil => exact List.Subset.refl _
  | cons hline _ ih => exact List.Subset.trans hline.subset ih

/-- No line contains its own end. -/
theorem Lines.feed_notMem {lines : List (List Char)} (h : Lines rules rules' lines) :
    ∀ l ∈ lines, '\n' ∉ l := by
  induction h with
  | nil => exact nofun
  | cons hline _ ih => exact List.forall_mem_cons.mpr ⟨hline.feed_notMem, ih⟩

/-- The reader follows the lines of a layout. -/
theorem Lines.readLines {lines : List (List Char)} (h : Lines rules rules' lines)
    (hrules : ∀ r ∈ rules', Legible r) (n : Nat) :
    (State.after rules).readLines n lines = .ok (State.after rules') := by
  induction h generalizing n with
  | nil => rfl
  | cons hline hrest ih =>
      have hread := hline.readContent fun r hr => hrules r (hrest.subset hr)
      rw [State.readLines, if_neg (Nat.not_le.mpr hline.length_lt), hread]
      exact ih hrules (n + 1)

end Lines

end Layout

/-! ## Texts -/

section Texts

variable {rules : List (Symbol × List Symbol)}

/-- The terminals are the symbols in bodies that have no rules, in order of
    appearance. -/
theorem terminals_after :
    (State.after rules).terminals
      = ((rules.flatMap Prod.snd).filter fun s => s ∉ rules.map Prod.fst).eraseDups := by
  have hfilter : (fun s => !(State.after rules).heads.contains s)
      = fun s => decide (s ∉ rules.map Prod.fst) := by
    funext s
    rw [Bool.eq_iff_iff]
    simp [State.after]
  rw [State.terminals, hfilter]
  rfl

/-- The rules are numbered in order of appearance. -/
theorem productions_after (hrules : ∀ r ∈ rules, Readable r) :
    (State.after rules).productions
      = rules.mapIdx fun k r => { id := k, lhs := r.1, body := r.2 } := by
  refine List.ext_getElem? fun k => ?_
  rw [State.productions, List.getElem?_mapIdx, List.getElem?_mapIdx]
  show rules[k]?.map _ = rules[k]?.map _
  cases hk : rules[k]? with
  | none => rfl
  | some r => exact congrArg some ((hrules r (List.mem_of_getElem? hk)).ofWritten k)

/-- However rules are written down, the reader finds them, numbers them in order, takes
    the first head for the start symbol, and tells nonterminals and terminals apart. -/
theorem read_layout (name : String) {text : String} {first : Symbol × List Symbol}
    (hfirst : rules.head? = some first) (hrules : ∀ r ∈ rules, Legible r)
    (htext : Layout rules text) :
    read name text = .ok
      { name := name
        start := first.1
        terminals := ((rules.flatMap Prod.snd).filter fun s => s ∉ rules.map Prod.fst).eraseDups
        nonterminals := (rules.map Prod.fst).eraseDups
        rules := rules.mapIdx fun k r => { id := k, lhs := r.1, body := r.2 } } := by
  obtain ⟨ls, hls, htext⟩ := htext
  obtain ⟨rest, rfl⟩ := List.head?_eq_some_iff.mp hfirst
  have hne : ls ≠ [] := by
    rintro rfl
    exact nomatch hls
  -- no line contains a line feed, so the text falls apart at the ends of its lines
  have hsplit : lines text.toList = ls := by
    rw [lines, htext]
    exact List.splitOn_intercalate '\n' hls.feed_notMem hne
  have hread : State.readLines {} 1 (lines text.toList) = .ok (State.after (first :: rest)) := by
    rw [hsplit]
    exact hls.readLines hrules 1
  have hreadable : ∀ r ∈ first :: rest, Readable r := fun r hr => (hrules r hr).toReadable
  rw [read_of_readLines hread, grammar_after name hreadable, ofRules, terminals_after,
    productions_after hreadable]
  rfl

/-- Rules of two heads; one body is empty and another one is an arrow. -/
def sumRules : List (Symbol × List Symbol) :=
  [("E", ["E", "+", "T"]), ("E", []), ("T", ["->"]), ("T", ["x"])]

/-- These rules with comments, an empty line, a carriage return and a rule on a line of its
    own. -/
def sumText : String :=
  "# sums\nE -> E + T\r\n\n  | ε # nothing\nT ::= -> | x"

/-- The example follows the layout. -/
theorem layout_sums : Layout sumRules sumText := by
  have hsum : Layout.Alternatives [["E", "+", "T"]] " E + T".toList :=
    .one (.symbols (.of_words (by decide)))
  have hnone : Layout.Alternatives [[]] " ε ".toList :=
    .one (.empty (.inl rfl) (.of_words (by decide)))
  have harrow : Layout.Alternatives [["->"], ["x"]] (" -> ".toList ++ '|' :: " x".toList) :=
    .cons (.symbols (.of_words (by decide))) (.one (.symbols (.of_words (by decide))))
  have hspace : Text.Blanks [' '] := by decide
  have hspaces : Text.Blanks [' ', ' '] := by decide
  have hfirst : Layout.Content [] [("E", ["E", "+", "T"])]
      ([] ++ ("E".toList ++ [' '] ++ ['-', '>'] ++ " E + T".toList)) :=
    .headed Text.blanks_nil hspace (by decide) hsum
  have hsecond : Layout.Content [("E", ["E", "+", "T"])] [("E", ["E", "+", "T"]), ("E", [])]
      ([' ', ' '] ++ '|' :: " ε ".toList) :=
    .continued hspaces rfl hnone
  have hthird : Layout.Content [("E", ["E", "+", "T"]), ("E", [])] sumRules
      ([] ++ ("T".toList ++ [' '] ++ [':', ':', '='] ++ (" -> ".toList ++ '|' :: " x".toList))) :=
    .headed Text.blanks_nil hspace (by decide) harrow
  -- a comment, the first rule, an empty line, its other alternative, the last rule
  refine ⟨_, .cons (.mk (.blank Text.blanks_nil) (.inr ⟨" sums".toList, rfl⟩) (.inl rfl) ?_ ?_)
    (.cons (.mk hfirst (.inl rfl) (.inr rfl) ?_ ?_)
    (.cons (.mk (.blank Text.blanks_nil) (.inl rfl) (.inl rfl) ?_ ?_)
    (.cons (.mk hsecond (.inr ⟨" nothing".toList, rfl⟩) (.inl rfl) ?_ ?_)
    (.cons (.mk hthird (.inl rfl) (.inl rfl) ?_ ?_) .nil)))), ?_⟩
  all_goals decide

/-- Read, it gives the grammar of sums with its symbols in order of appearance. -/
theorem read_layout_sums :
    (∀ r ∈ sumRules, Legible r) ∧ Layout sumRules sumText ∧
      read "sums" sumText = .ok
        { name := "sums"
          start := "E"
          terminals := ["+", "->", "x"]
          nonterminals := ["E", "T"]
          rules := [{ id := 0, lhs := "E", body := ["E", "+", "T"] },
            { id := 1, lhs := "E", body := [] }, { id := 2, lhs := "T", body := ["->"] },
            { id := 3, lhs := "T", body := ["x"] }] } := by
  have hlegible : ∀ r ∈ sumRules, Legible r := by decide
  exact ⟨hlegible, layout_sums, read_layout "sums" rfl hlegible layout_sums⟩

end Texts

end Bnf

end Grammar

end ShiftReduce
