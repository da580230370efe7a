import Mathlib.Data.List.TakeWhile
import ShiftReduce.Text.Blank

/-! # Words — what blanks do to a text

    A blank ends a word wherever it stands (`words_append_blank`), so that a text
    has the same words with more blanks around it or less, and trimming keeps
    them.  What is trimmed off are blanks, and a text that neither begins nor ends
    with one is kept (`trim_around`). -/

namespace ShiftReduce

namespace Text

/-- Nothing but blanks. -/
def Blanks (cs : List Char) : Prop :=
  ∀ c ∈ cs, isBlank c = true

/-- No blank at all. -/
def Solid (cs : List Char) : Prop :=
  ∀ c ∈ cs, isBlank c = false

instance : DecidablePred Blanks := fun cs =>
  decidable_of_iff (cs.all isBlank = true) List.all_eq_true

instance : DecidablePred Solid := fun cs =>
  decidable_of_iff (cs.all (fun c => !isBlank c) = true) (by simp [Solid])

theorem blanks_nil : Blanks [] :=
  nofun

/-! ## Words -/

@[simp] theorem words_nil : words [] = [] := by
  simp [words]

/-- A blank is between words. -/
theorem words_append_blank {b : Char} (hb : isBlank b = true) (xs ys : List Char) :
    words (xs ++ b :: ys) = words xs ++ words ys := by
  rw [words, List.splitOnP_append_cons xs ys hb, List.filter_append]
  rfl

theorem words_blank_cons {b : Char} (hb : isBlank b = true) (cs : List Char) :
    words (b :: cs) = words cs :=
  words_append_blank hb [] cs

/-- Blanks in front of a text add no word. -/
theorem words_blanks_append {u : List Char} (hu : Blanks u) (cs : List Char) :
    words (u ++ cs) = words cs := by
  induction u with
  | nil => rfl
  | cons b u ih =>
      rw [List.cons_append, words_blank_cons (hu b List.mem_cons_self)]
      exact ih fun c hc => hu c (List.mem_cons_of_mem b hc)

theorem words_of_blanks {u : List Char} (hu : Blanks u) : words u = [] := by
  have hwords := words_blanks_append hu []
  rw [List.append_nil, words_nil] at hwords
  exact hwords

theorem words_append_blanks {v : List Char} (hv : Blanks v) (cs : List Char) :
    words (cs ++ v) = words cs := by
  cases v with
  | nil => rw [List.append_nil]
  | cons b v =>
      have hrest : Blanks v := fun c hc => hv c (List.mem_cons_of_mem b hc)
      rw [words_append_blank (hv b List.mem_cons_self), words_of_blanks hrest, List.append_nil]

/-- A text without blanks is one word. -/
theorem words_of_solid {w : List Char} (hne : w ≠ []) (hw : Solid w) : words w = [w] := by
  rw [words, List.splitOnP_eq_singleton hw]
  simp [hne]

/-- No piece of a split contains a character that was split at. -/
theorem forall_of_mem_splitOnP {p : Char → Bool} :
    ∀ {cs w : List Char}, w ∈ cs.splitOnP p → ∀ c ∈ w, p c = false ∧ c ∈ cs := by
  intro cs
  induction cs with
  | nil =>
      intro w hw c hc
      rw [List.splitOnP_nil, List.mem_singleton] at hw
      rw [hw] at hc
      exact nomatch hc
  | cons x cs ih =>
      intro w hw c hc
      rw [List.splitOnP_cons_eq_if_modifyHead] at hw
      -- a character goes to the front of the first piece, unless it separates
      obtain ⟨piece, pieces, hpieces⟩ := List.exists_cons_of_ne_nil (List.splitOnP_ne_nil p cs)
      have hold : ∀ {w}, w ∈ cs.splitOnP p → c ∈ w → p c = false ∧ c ∈ x :: cs := fun hw hc =>
        ⟨(ih hw c hc).1, List.mem_cons_of_mem x (ih hw c hc).2⟩
      split at hw
      · rcases List.mem_cons.mp hw with rfl | hw
        · exact nomatch hc
        · exact hold hw hc
      · rename_i hx
        rw [hpieces, List.modifyHead_cons] at hw
        rcases List.mem_cons.mp hw with rfl | hw
        · rcases List.mem_cons.mp hc with rfl | hc
          · exact ⟨by simpa using hx, List.mem_cons_self⟩
          · exact hold (by rw [hpieces]; exact List.mem_cons_self) hc
        · exact hold (by rw [hpieces]; exact List.mem_cons_of_mem piece hw) hc

/-- Words are not empty, have no blanks and are made up of characters of the text. -/
theorem of_mem_words {cs w : List Char} (hw : w ∈ words cs) : w ≠ [] ∧ Solid w ∧ w ⊆ cs := by
  obtain ⟨hpiece, hne⟩ := List.mem_filter.mp hw
  have hchars := forall_of_mem_splitOnP hpiece
  exact ⟨by simpa using hne, fun c hc => (hchars c hc).1, fun c hc => (hchars c hc).2⟩

/-- A text whose first character is no blank begins with a word. -/
theorem words_cons_ne_nil {c : Char} (hc : isBlank c = false) (cs : List Char) :
    words (c :: cs) ≠ [] := by
  obtain ⟨piece, pieces, hpieces⟩ :=
    List.exists_cons_of_ne_nil (List.splitOnP_ne_nil isBlank cs)
  rw [words, List.splitOnP_cons_eq_if_modifyHead, hc, hpieces]
  simp

/-- A text without words is blank. -/
theorem blanks_of_words_eq_nil {cs : List Char} (h : words cs = []) : Blanks cs := by
  induction cs with
  | nil => exact blanks_nil
  | cons c cs ih =>
      cases hc : isBlank c with
      | false => exact absurd h (words_cons_ne_nil hc cs)
      | true =>
          rw [words_blank_cons hc] at h
          exact List.forall_mem_cons.mpr ⟨hc, ih h⟩

/-- A word ends at a blank or with the text. -/
theorem words_solid_append {w rest : List Char} (hne : w ≠ []) (hw : Solid w)
    (hrest : ∀ c ∈ rest.head?, isBlank c = true) : words (w ++ rest) = w :: words rest := by
  cases rest with
  | nil => rw [List.append_nil, words_of_solid hne hw, words_nil]
  | cons b rest =>
      have hb := hrest b rfl
      rw [words_append_blank hb, words_of_solid hne hw, words_blank_cons hb]
      rfl

/-- The text up to its first blank. -/
theorem exists_solid (cs : List Char) :
    ∃ w rest, Solid w ∧ (∀ c ∈ rest.head?, isBlank c = true) ∧ cs = w ++ rest := by
  induction cs with
  | nil => exact ⟨[], [], nofun, nofun, rfl⟩
  | cons c cs ih =>
      cases hc : isBlank c with
      | true =>
          refine ⟨[], c :: cs, nofun, ?_, rfl⟩
          rintro b hb
          obtain rfl := Option.some.inj hb
          exact hc
      | false =>
          obtain ⟨w, rest, hw, hrest, rfl⟩ := ih
          exact ⟨c :: w, rest, List.forall_mem_cons.mpr ⟨hc, hw⟩, hrest, rfl⟩

/-- A text of one word is that word, with blanks around it. -/
theorem exists_blanks_of_words {cs w : List Char} (h : words cs = [w]) :
    ∃ u v, Blanks u ∧ Blanks v ∧ cs = u ++ (w ++ v) := by
  induction cs with
  | nil =>
      rw [words_nil] at h
      exact nomatch h
  | cons c cs ih =>
      cases hc : isBlank c with
      | true =>
          rw [words_blank_cons hc] at h
          obtain ⟨u, v, hu, hv, rfl⟩ := ih h
          exact ⟨c :: u, v, List.forall_mem_cons.mpr ⟨hc, hu⟩, hv, rfl⟩
      | false =>
          -- the word begins here, and behind it there is no other
          obtain ⟨x, rest, hx, hrest, rfl⟩ := exists_solid cs
          have hwords : words (c :: (x ++ rest)) = (c :: x) :: words rest :=
            words_solid_append (List.cons_ne_nil c x) (List.forall_mem_cons.mpr ⟨hc, hx⟩) hrest
          obtain ⟨rfl, hnone⟩ := List.cons.inj (hwords.symm.trans h)
          exact ⟨[], rest, blanks_nil, blanks_of_words_eq_nil hnone, rfl⟩

/-! ## Trimming -/

/-- What is trimmed off the end are blanks. -/
theorem exists_trimEnd (cs : List Char) : ∃ v, Blanks v ∧ cs = trimEnd cs ++ v := by
  refine ⟨(cs.reverse.takeWhile isBlank).reverse, ?_, ?_⟩
  · intro c hc
    exact List.mem_takeWhile_imp (List.mem_reverse.mp hc)
  · rw [trimEnd, ← List.reverse_append, List.takeWhile_append_dropWhile, List.reverse_reverse]

theorem words_trimEnd (cs : List Char) : words (trimEnd cs) = words cs := by
  obtain ⟨v, hv, hcs⟩ := exists_trimEnd cs
  calc words (trimEnd cs) = words (trimEnd cs ++ v) := (words_append_blanks hv _).symm
    _ = words cs := by rw [← hcs]

/-- Trimming takes blanks off both ends and nothing else. -/
theorem exists_trim (cs : List Char) : ∃ u v, Blanks u ∧ Blanks v ∧ cs = u ++ (trim cs ++ v) := by
  obtain ⟨v, hv, hrest⟩ := exists_trimEnd (cs.dropWhile isBlank)
  refine ⟨cs.takeWhile isBlank, v, fun c hc => List.mem_takeWhile_imp hc, hv, ?_⟩
  rw [trim, ← hrest, List.takeWhile_append_dropWhile]

theorem trim_subset (cs : List Char) : trim cs ⊆ cs := by
  obtain ⟨u, v, -, -, hcs⟩ := exists_trim cs
  intro c hc
  rw [hcs]
  simp [hc]

/-- Nothing is dropped in front of a character that is no blank. -/
theorem dropWhile_of_head? {cs : List Char} (h : ∀ c ∈ cs.head?, isBlank c = false) :
    cs.dropWhile isBlank = cs := by
  cases cs with
  | nil => rfl
  | cons c cs =>
      have hc := h c rfl
      rw [List.dropWhile_cons_of_neg (by rw [hc]; exact Bool.false_ne_true)]

theorem dropWhile_of_blanks {u : List Char} (hu : Blanks u) (cs : List Char) :
    (u ++ cs).dropWhile isBlank = cs.dropWhile isBlank := by
  induction u with
  | nil => rfl
  | cons b u ih =>
      rw [List.cons_append, List.dropWhile_cons_of_pos (hu b List.mem_cons_self)]
      exact ih fun c hc => hu c (List.mem_cons_of_mem b hc)

/-- Trimming at the end does not reach past a character that is no blank. -/
theorem trimEnd_append {x : List Char} (hx : ∀ c ∈ x.getLast?, isBlank c = false)
    (y : List Char) : trimEnd (x ++ y) = x ++ trimEnd y := by
  have hkeep : x.reverse.dropWhile isBlank = x.reverse := by
    refine dropWhile_of_head? ?_
    rw [List.head?_reverse]
    exact hx
  rw [trimEnd, trimEnd, List.reverse_append, List.dropWhile_append]
  split
  · rename_i hempty
    rw [List.isEmpty_iff.mp hempty, hkeep, List.reverse_reverse, List.reverse_nil, List.append_nil]
  · rw [List.reverse_append, List.reverse_reverse]

/-- Nothing is trimmed in front of a character that is no blank. -/
theorem trimEnd_append_cons {c : Char} (hc : isBlank c = false) (cs rest : List Char) :
    trimEnd (cs ++ c :: rest) = cs ++ c :: trimEnd rest := by
  have hlast : ∀ b ∈ (cs ++ [c]).getLast?, isBlank b = false := by
    rw [List.getLast?_concat]
    rintro b ⟨⟩
    exact hc
  simpa using trimEnd_append hlast rest

/-- Trimming keeps the first character that is no blank and trims behind it. -/
theorem trim_blanks_cons {u : List Char} {c : Char} (hu : Blanks u) (hc : isBlank c = false)
    (rest : List Char) : trim (u ++ c :: rest) = c :: trimEnd rest := by
  have hkeep : (c :: rest).dropWhile isBlank = c :: rest := by
    refine dropWhile_of_head? ?_
    rintro b ⟨⟩
    exact hc
  rw [trim, dropWhile_of_blanks hu, hkeep]
  exact trimEnd_append_cons hc [] rest

/-- What begins and ends without a blank stays, and only blanks around it and at the
    end are cut off. -/
theorem trim_around {u x : List Char} (hu : Blanks u) (hne : x ≠ [])
    (hhead : ∀ c ∈ x.head?, isBlank c = false) (hlast : ∀ c ∈ x.getLast?, isBlank c = false)
    (y : List Char) : trim (u ++ (x ++ y)) = x ++ trimEnd y := by
  have hkeep : (x ++ y).dropWhile isBlank = x ++ y := by
    refine dropWhile_of_head? ?_
    obtain ⟨c, cs, rfl⟩ := List.exists_cons_of_ne_nil hne
    exact hhead
  rw [trim, dropWhile_of_blanks hu, hkeep, trimEnd_append hlast]

theorem trimEnd_append_blanks {v : List Char} (hv : Blanks v) (cs : List Char) :
    trimEnd (cs ++ v) = trimEnd cs := by
  have hreverse : Blanks v.reverse := fun c hc => hv c (List.mem_reverse.mp hc)
  rw [trimEnd, List.reverse_append, dropWhile_of_blanks hreverse, trimEnd]

theorem trimEnd_of_blanks {v : List Char} (hv : Blanks v) : trimEnd v = [] :=
  trimEnd_append_blanks hv []

/-- Blanks behind a text are trimmed off. -/
theorem trim_append_blanks {v : List Char} (hv : Blanks v) (cs : List Char) :
    trim (cs ++ v) = trim cs := by
  rw [trim, trim, List.dropWhile_append]
  split
  · rename_i hempty
    rw [List.isEmpty_iff.mp hempty]
    have hdrop := dropWhile_of_blanks hv []
    rw [List.append_nil] at hdrop
    rw [hdrop]
    rfl
  · exact trimEnd_append_blanks hv _

/-- Only blanks are trimmed away altogether. -/
theorem trim_of_blanks {u : List Char} (hu : Blanks u) : trim u = [] :=
  trim_append_blanks hu []

/-- A text of one word is trimmed to it. -/
theorem trim_of_words {cs w : List Char} (h : words cs = [w]) : trim cs = w := by
  obtain ⟨u, v, hu, hv, rfl⟩ := exists_blanks_of_words h
  obtain ⟨hne, hsolid, -⟩ := of_mem_words (h ▸ List.mem_singleton_self w)
  have hhead : ∀ c ∈ w.head?, isBlank c = false := fun c hc => hsolid c (List.mem_of_mem_head? hc)
  have hlast : ∀ c ∈ w.getLast?, isBlank c = false := fun c hc =>
    hsolid c (List.mem_of_mem_getLast? hc)
  rw [trim_around hu hne hhead hlast, trimEnd_of_blanks hv, List.append_nil]

end Text

end ShiftReduce
