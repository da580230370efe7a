import Mathlib.Tactic.MkIffOfInductiveProp
import ShiftReduce.Grammar.Bnf
import ShiftReduce.Proofs.FirstOccurrences
import ShiftReduce.Proofs.Grammar.Assembly
import ShiftReduce.Proofs.Text.Words

/-! # Reading — what the reader has after some lines

    The rules that have been read decide on the rest of the state: the heads are
    those of the rules, in order of first use, and the next alternative belongs to
    the head of the last rule (`State.after`).  A line only adds rules
    (`readContent_after`), whose names have no blank and no comment character in
    them and are not reserved (`Readable`).  Such rules make a grammar
    (`grammar_after`), so nothing but a fault of a line, a line that is too long
    or a text without rules keeps a text from being read, and what is read is
    well-formed (`read_total`). -/

namespace ShiftReduce

namespace Grammar

namespace Bnf

/-! ## States as lists of rules -/

/-- The rules of one head with the given bodies. -/
def alternativesOf (head : Symbol) (bodies : List (List Symbol)) : List (Symbol × List Symbol) :=
  bodies.map fun b => (head, b)

/-- The state that the given rules lead to. -/
def State.after (rules : List (Symbol × List Symbol)) : State where
  rules := rules
  heads := (rules.map Prod.fst).eraseDups
  current := rules.getLast?.map Prod.fst

/-- The bodies that a text denotes, alternative by alternative. -/
def Alternatives (text : List Char) (bodies : List (List Symbol)) : Prop :=
  List.Forall₂ (fun a b => body a = .ok b) (text.splitOn '|') bodies

/-- A text has at least one alternative. -/
theorem Alternatives.ne_nil {text : List Char} {bodies : List (List Symbol)}
    (h : Alternatives text bodies) : bodies ≠ [] := by
  rintro rfl
  exact List.splitOnP_ne_nil _ text (List.forall₂_nil_right_iff.mp h)

/-- Two steps succeed if the first one does and the second one does with its result. -/
theorem bind_eq_ok {ε α β : Type} {x : Except ε α} {f : α → Except ε β} {b : β} :
    x >>= f = .ok b ↔ ∃ a, x = .ok a ∧ f a = .ok b := by
  cases x with
  | error e => exact ⟨nofun, nofun⟩
  | ok a =>
      constructor
      · intro h
        exact ⟨a, rfl, h⟩
      · rintro ⟨a', ha, h⟩
        cases ha
        exact h

/-- A row of steps succeeds if each of them does. -/
theorem mapM_eq_ok {ε α β : Type} {f : α → Except ε β} {xs : List α} {ys : List β} :
    xs.mapM f = .ok ys ↔ List.Forall₂ (fun x y => f x = .ok y) xs ys := by
  induction xs generalizing ys with
  | nil =>
      rw [List.mapM_nil, List.forall₂_nil_left_iff]
      constructor
      · rintro ⟨⟩
        rfl
      · rintro rfl
        rfl
  | cons x xs ih =>
      rw [List.mapM_cons, bind_eq_ok, List.forall₂_cons_left_iff]
      refine exists_congr fun y => ?_
      rw [bind_eq_ok]
      constructor
      · rintro ⟨hy, zs, hzs, ⟨⟩⟩
        exact ⟨zs, hy, ih.mp hzs, rfl⟩
      · rintro ⟨zs, hy, hzs, rfl⟩
        exact ⟨hy, zs, ih.mpr hzs, rfl⟩

/-- Bodies are added if each alternative of the text can be read. -/
theorem addBodies_eq_ok {st st' : State} {head : Symbol} {text : List Char} :
    st.addBodies head text = .ok st' ↔ ∃ bodies, Alternatives text bodies ∧
      { st with rules := st.rules ++ alternativesOf head bodies, current := some head } = st' := by
  rw [State.addBodies, bind_eq_ok]
  refine exists_congr fun bodies => and_congr mapM_eq_ok ?_
  exact ⟨Except.ok.inj, congrArg Except.ok⟩

section After

variable {rules : List (Symbol × List Symbol)} {head : Symbol} {text : List Char}
  {bodies : List (List Symbol)} {st : State}

/-- A head is listed when it comes up first. -/
theorem heads_after_append (hne : bodies ≠ []) :
    (State.after (rules ++ alternativesOf head bodies)).heads
      = if (State.after rules).heads.contains head then (State.after rules).heads
        else (State.after rules).heads ++ [head] := by
  obtain ⟨b, bs, rfl⟩ := List.exists_cons_of_ne_nil hne
  -- the first body brings the head in, the others have it there already
  have hsplit : (rules ++ alternativesOf head (b :: bs)).map Prod.fst
      = (rules.map Prod.fst ++ [head]) ++ (alternativesOf head bs).map Prod.fst := by
    simp [alternativesOf]
  have hsub : (alternativesOf head bs).map Prod.fst ⊆ rules.map Prod.fst ++ [head] := by
    intro s hs
    simp only [alternativesOf, List.map_map, List.mem_map, Function.comp_apply] at hs
    obtain ⟨_, -, rfl⟩ := hs
    simp
  show ((rules ++ alternativesOf head (b :: bs)).map Prod.fst).eraseDups = _
  rw [hsplit, eraseDups_append_of_subset hsub, eraseDups_concat]
  simp only [State.after, List.contains_iff_mem, List.mem_eraseDups]

/-- The head that alternatives were given for is the current one. -/
theorem current_after_append (hne : bodies ≠ []) :
    (State.after (rules ++ alternativesOf head bodies)).current = some head := by
  obtain ⟨bs, b, rfl⟩ := List.eq_nil_or_concat bodies |>.resolve_left hne
  simp [State.after, alternativesOf]

/-- A line of a head adds its alternatives, and no other rules. -/
theorem addBodies_newHead :
    { State.after rules with
      heads := if (State.after rules).heads.contains head then (State.after rules).heads
        else (State.after rules).heads ++ [head] }.addBodies head text = .ok st ↔
    ∃ bodies, Alternatives text bodies ∧ State.after (rules ++ alternativesOf head bodies) = st := by
  rw [addBodies_eq_ok]
  refine exists_congr fun bodies => and_congr_right fun hbodies => ?_
  rw [← heads_after_append hbodies.ne_nil, ← current_after_append hbodies.ne_nil]
  rfl

/-- So does a line that goes on with the head of the last rule. -/
theorem addBodies_current (hcurrent : (State.after rules).current = some head) :
    (State.after rules).addBodies head text = .ok st ↔
    ∃ bodies, Alternatives text bodies ∧ State.after (rules ++ alternativesOf head bodies) = st := by
  have hhead : (State.after rules).heads.contains head = true := by
    obtain ⟨r, hr, rfl⟩ := Option.map_eq_some_iff.mp hcurrent
    have hmem : r.1 ∈ rules.map Prod.fst := List.mem_map_of_mem (List.mem_of_getLast? hr)
    exact List.contains_iff_mem.mpr (List.mem_eraseDups.mpr hmem)
  rw [← addBodies_newHead, hhead]
  rfl

end After

/-! ## What a line adds -/

/-- A name as the reader makes it: without blanks and comment characters, and none
    of the reserved spellings. -/
@[mk_iff]
structure IsName (s : Symbol) : Prop where
  nonempty : s ≠ ""
  plain : ∀ c ∈ s.toList, Text.isBlank c = false ∧ c ≠ '#'
  notEmptyWord : isEmptyWord s = false
  notEnd : s ≠ Symbol.endMarker

/-- A rule as the reader makes it.  Only the head may have an alternation bar in it. -/
@[mk_iff]
structure Readable (r : Symbol × List Symbol) : Prop where
  head : IsName r.1
  body : ∀ s ∈ r.2, IsName s ∧ '|' ∉ s.toList

instance : DecidablePred IsName := fun s =>
  decidable_of_iff (s ≠ "" ∧ (s.toList.all fun c => !Text.isBlank c && c != '#') = true ∧
    isEmptyWord s = false ∧ s ≠ Symbol.endMarker) (by simp [isName_iff])

instance : DecidablePred Readable := fun r => decidable_of_iff' _ (readable_iff r)

theorem IsName.notEpsilon {s : Symbol} (h : IsName s) : s ≠ Symbol.epsilon := by
  rintro rfl
  exact nomatch h.notEmptyWord

/-- No reserved word is a name of a symbol. -/
theorem IsName.notReserved {s : Symbol} (h : IsName s) : s.isReserved = false := by
  have hunmatched : s ≠ Symbol.unmatched := by
    rintro rfl
    exact (h.plain '#' (by decide)).2 rfl
  simp [Symbol.isReserved, h.notEpsilon, h.notEnd, hunmatched]

/-- A grammar may declare every name. -/
theorem IsName.isDeclarable {s : Symbol} (h : IsName s) : s.isDeclarable = true := by
  simp [Symbol.isDeclarable, h.notReserved, h.nonempty]

/-- A body that the reader makes does not spell out the empty word. -/
theorem Readable.ne_epsilon {r : Symbol × List Symbol} (h : Readable r) :
    r.2 ≠ [Symbol.epsilon] := by
  intro heq
  exact (h.body Symbol.epsilon (heq ▸ List.mem_singleton_self _)).1.notEpsilon rfl

/-- What is written in a line is the body of the rule as it stands. -/
theorem Readable.ofWritten {r : Symbol × List Symbol} (h : Readable r) (k : Nat) :
    Production.ofWritten k r.1 r.2 = { id := k, lhs := r.1, body := r.2 } := by
  rw [Production.ofWritten, if_neg h.ne_epsilon]

/-- A word without comment characters that the reader takes for no reserved symbol
    is a name. -/
theorem isName_of_mem_words {text w : List Char} (hw : w ∈ Text.words text) (htext : '#' ∉ text)
    (hempty : isEmptyWord (String.ofList w) = false)
    (hend : String.ofList w ≠ Symbol.endMarker) : IsName (String.ofList w) where
  nonempty := by simpa using (Text.of_mem_words hw).1
  plain := by
    obtain ⟨-, hsolid, hsub⟩ := Text.of_mem_words hw
    rw [String.toList_ofList]
    intro c hc
    refine ⟨hsolid c hc, ?_⟩
    rintro rfl
    exact htext (hsub hc)
  notEmptyWord := hempty
  notEnd := hend

/-- What stands before an arrow is a name, if it is read at all. -/
theorem isName_of_headOf {text : List Char} {head : Symbol} (htext : '#' ∉ text)
    (h : headOf text = .ok head) : IsName head := by
  rw [headOf] at h
  split at h
  · exact nomatch h
  · rename_i hone
    obtain ⟨w, hw⟩ := List.length_eq_one_iff.mp (not_not.mp hone)
    rw [Text.trim_of_words hw] at h
    split at h
    · exact nomatch h
    · rename_i hreserved
      obtain rfl := Except.ok.inj h
      rw [Bool.not_eq_true, Bool.or_eq_false_iff, beq_eq_false_iff_ne] at hreserved
      exact isName_of_mem_words (hw ▸ List.mem_singleton_self w) htext hreserved.1 hreserved.2

/-- Every symbol of a body is a name without a bar, if the body is read at all. -/
theorem isName_of_body {text : List Char} {symbols : List Symbol} (htext : '#' ∉ text)
    (hbar : '|' ∉ text) (h : body text = .ok symbols) :
    ∀ s ∈ symbols, IsName s ∧ '|' ∉ s.toList := by
  simp only [body] at h
  split at h
  · exact nomatch h
  · rename_i hend
    obtain rfl := Except.ok.inj h
    intro s hs
    obtain ⟨hword, hempty⟩ := List.mem_filter.mp hs
    obtain ⟨w, hw, rfl⟩ := List.mem_map.mp hword
    constructor
    · refine isName_of_mem_words hw htext (by simpa using hempty) ?_
      intro heq
      rw [heq] at hword
      exact hend (List.contains_iff_mem.mpr hword)
    · rw [String.toList_ofList]
      intro hmem
      exact hbar ((Text.of_mem_words hw).2.2 hmem)

/-- In related lists, every member on the right has one on the left. -/
theorem exists_of_mem_right {α β : Type} {R : α → β → Prop} {xs : List α} {ys : List β}
    (h : List.Forall₂ R xs ys) {y : β} (hy : y ∈ ys) : ∃ x ∈ xs, R x y := by
  induction h with
  | nil => exact nomatch hy
  | cons hxy _ ih =>
      rcases List.mem_cons.mp hy with rfl | hy
      · exact ⟨_, List.mem_cons_self, hxy⟩
      · obtain ⟨x, hx, hR⟩ := ih hy
        exact ⟨x, List.mem_cons_of_mem _ hx, hR⟩

/-- The alternatives of a name are readable rules. -/
theorem Alternatives.readable {text : List Char} {bodies : List (List Symbol)} {head : Symbol}
    (h : Alternatives text bodies) (htext : '#' ∉ text) (hhead : IsName head) :
    ∀ r ∈ alternativesOf head bodies, Readable r := by
  intro r hr
  obtain ⟨b, hb, rfl⟩ := List.mem_map.mp hr
  obtain ⟨piece, hpiece, hbody⟩ := exists_of_mem_right h hb
  have hchars := Text.forall_of_mem_splitOnP hpiece
  refine ⟨hhead, isName_of_body ?_ ?_ hbody⟩
  · intro hmem
    exact htext (hchars _ hmem).2
  · intro hmem
    exact absurd (hchars _ hmem).1 (by decide)

/-- The pieces around an arrow are parts of the line. -/
theorem cutAtArrow_subset {line before behind : List Char}
    (h : cutAtArrow line = some (before, behind)) : before ⊆ line ∧ behind ⊆ line := by
  induction line generalizing before behind with
  | nil => exact nomatch h
  | cons c cs ih =>
      rw [cutAtArrow] at h
      split at h
      · cases h
        exact ⟨List.nil_subset _, List.drop_subset _ _⟩
      · obtain ⟨⟨x, y⟩, hxy, heq⟩ := Option.map_eq_some_iff.mp h
        cases heq
        obtain ⟨hx, hy⟩ := ih hxy
        exact ⟨List.cons_subset_cons c hx, List.subset_cons_of_subset c hy⟩

/-- A line that begins with a bar goes on with the current head. -/
theorem readContent_bar (st : State) (text : List Char) :
    st.readContent ('|' :: text) = match st.current with
      | none => .error .alternativeWithoutHead
      | some head => st.addBodies head text :=
  rfl

/-- Any other line has a head, and an arrow behind it. -/
theorem readContent_headed {st : State} {line : List Char} (hblank : line ≠ [])
    (hbar : ¬ ∃ text, line = '|' :: text) :
    st.readContent line = match cutAtArrow line with
      | none => .error .missingArrow
      | some (before, text) => headOf before >>= fun head =>
        { st with heads := if st.heads.contains head then st.heads else st.heads ++ [head] }.addBodies
          head text := by
  rw [State.readContent.eq_def]
  split
  · exact absurd rfl hblank
  · exact absurd ⟨_, rfl⟩ hbar
  · rfl

/-- A line without a comment adds readable rules to readable rules. -/
theorem readContent_after {rules : List (Symbol × List Symbol)} (hrules : ∀ r ∈ rules, Readable r)
    {line : List Char} (hline : '#' ∉ line) {st : State}
    (h : (State.after rules).readContent line = .ok st) :
    ∃ rules', (∀ r ∈ rules', Readable r) ∧ State.after rules' = st := by
  -- whatever the head is, if it is a name, its alternatives come behind the rules
  have hadd : ∀ {head text}, IsName head → text ⊆ line →
      (∃ bodies, Alternatives text bodies ∧ State.after (rules ++ alternativesOf head bodies) = st) →
      ∃ rules', (∀ r ∈ rules', Readable r) ∧ State.after rules' = st := by
    rintro head text hhead hsub ⟨bodies, hbodies, hst⟩
    have hnew := hbodies.readable (fun hmem => hline (hsub hmem)) hhead
    exact ⟨_, List.forall_mem_append.mpr ⟨hrules, hnew⟩, hst⟩
  by_cases hblank : line = []
  · subst hblank
    exact ⟨rules, hrules, Except.ok.inj h⟩
  by_cases hbar : ∃ text, line = '|' :: text
  · obtain ⟨text, rfl⟩ := hbar
    rw [readContent_bar] at h
    split at h
    · exact nomatch h
    · rename_i head hcurrent
      obtain ⟨r, hr, rfl⟩ := Option.map_eq_some_iff.mp hcurrent
      have hhead := (hrules r (List.mem_of_getLast? hr)).head
      exact hadd hhead (List.subset_cons_self _ text) ((addBodies_current hcurrent).mp h)
  · rw [readContent_headed hblank hbar] at h
    split at h
    · exact nomatch h
    · rename_i before text hcut
      obtain ⟨hbefore, htext⟩ := cutAtArrow_subset hcut
      obtain ⟨head, hhead, hbodies⟩ := bind_eq_ok.mp h
      have hname := isName_of_headOf (fun hmem => hline (hbefore hmem)) hhead
      exact hadd hname htext (addBodies_newHead.mp hbodies)

/-- The content of a line has no comment. -/
theorem comment_notMem_content (line : List Char) : '#' ∉ content line := by
  intro hmem
  have hbefore := List.mem_takeWhile_imp (Text.trim_subset _ hmem)
  exact absurd hbefore (by decide)

/-- Reading lines after readable rules fails at a line or leads to readable rules. -/
theorem readLines_after {rules : List (Symbol × List Symbol)} (hrules : ∀ r ∈ rules, Readable r)
    (n : Nat) (lines : List (List Char)) :
    (∃ k f, (State.after rules).readLines n lines = .error (.line k f)) ∨
    (State.after rules).readLines n lines = .error .lineTooLong ∨
    ∃ rules', (∀ r ∈ rules', Readable r) ∧
      (State.after rules).readLines n lines = .ok (State.after rules') := by
  induction lines generalizing rules n with
  | nil => exact .inr (.inr ⟨rules, hrules, rfl⟩)
  | cons line rest ih =>
      rw [State.readLines]
      split
      · exact .inr (.inl rfl)
      · cases hst : (State.after rules).readContent (content line) with
        | error f => exact .inl ⟨n, f, rfl⟩
        | ok st =>
            obtain ⟨rules', hrules', rfl⟩ :=
              readContent_after hrules (comment_notMem_content line) hst
            exact ih hrules' (n + 1)

/-! ## The grammar that has been read -/

section Grammar

variable {rules : List (Symbol × List Symbol)}

/-- The heads are the left sides of the rules. -/
theorem mem_heads_after {s : Symbol} : s ∈ (State.after rules).heads ↔ ∃ r ∈ rules, r.1 = s := by
  rw [State.after, List.mem_eraseDups, List.mem_map]

/-- The terminals are the symbols in bodies that are no heads. -/
theorem mem_terminals_after {s : Symbol} :
    s ∈ (State.after rules).terminals ↔
      (∃ r ∈ rules, s ∈ r.2) ∧ s ∉ (State.after rules).heads := by
  rw [State.terminals, List.mem_eraseDups, List.mem_filter, List.mem_flatMap]
  simp [State.after]

/-- The rules are numbered by their places among the lines. -/
theorem mem_productions_after {p : Production} :
    p ∈ (State.after rules).productions ↔
      ∃ (k : Nat) (r : _), rules[k]? = some r ∧ Production.ofWritten k r.1 r.2 = p := by
  rw [State.productions, List.mem_iff_getElem?]
  simp only [List.getElem?_mapIdx, Option.map_eq_some_iff]
  rfl

/-- The grammar of rules, the first of which is given apart. -/
def ofRules (name : String) (r : Symbol × List Symbol) (rules : List (Symbol × List Symbol)) :
    Grammar where
  name := name
  start := r.1
  terminals := (State.after (r :: rules)).terminals
  nonterminals := (State.after (r :: rules)).heads
  rules := (State.after (r :: rules)).productions

/-- Rules with readable names make a checked grammar. -/
theorem ofRules_checked (name : String) {r : Symbol × List Symbol}
    (hrules : ∀ q ∈ r :: rules, Readable q) : (ofRules name r rules).Checked := by
  refine { numbered := ?_, declarable := ?_, start_mem := ?_, lhs_mem := ?_, body_mem := ?_ }
  · intro n p hp
    rw [ofRules, State.productions, List.getElem?_mapIdx] at hp
    obtain ⟨q, -, rfl⟩ := Option.map_eq_some_iff.mp hp
    rfl
  · rintro s (hs | hs)
    · obtain ⟨⟨q, hq, hmem⟩, -⟩ := mem_terminals_after.mp hs
      exact ((hrules q hq).body s hmem).1.isDeclarable
    · obtain ⟨q, hq, rfl⟩ := mem_heads_after.mp hs
      exact (hrules q hq).head.isDeclarable
  · exact mem_heads_after.mpr ⟨r, List.mem_cons_self, rfl⟩
  · intro p hp
    obtain ⟨k, q, hq, rfl⟩ := mem_productions_after.mp hp
    exact mem_heads_after.mpr ⟨q, List.mem_of_getElem? hq, rfl⟩
  · -- a symbol of a body is a terminal just if it is not a head
    intro p hp s hs
    obtain ⟨k, q, hq, rfl⟩ := mem_productions_after.mp hp
    have hmem := List.mem_of_getElem? hq
    rw [(hrules q hmem).ofWritten] at hs
    by_cases hhead : s ∈ (State.after (r :: rules)).heads
    · exact .inr hhead
    · exact .inl (mem_terminals_after.mpr ⟨⟨q, hmem, hs⟩, hhead⟩)

/-- Readable rules make a grammar. -/
theorem grammar_after (name : String) {r : Symbol × List Symbol}
    (hrules : ∀ q ∈ r :: rules, Readable q) :
    (State.after (r :: rules)).grammar name = .ok (ofRules name r rules) := by
  have hproductions : (ofRules name r rules).rules ≠ [] := by
    simp [ofRules, State.productions, State.after]
  have hheads : (State.after (r :: rules)).heads
      = r.1 :: ((rules.map Prod.fst).filter fun s => !s == r.1).eraseDups := List.eraseDups_cons
  rw [State.grammar]
  split
  · rename_i hnil
    exact nomatch hheads.symm.trans hnil
  · rename_i start rest hcons
    obtain ⟨rfl, -⟩ := List.cons.inj (hheads.symm.trans hcons)
    exact (ofRules_checked name hrules).assemble_eq rfl hproductions

/-- If all lines are read, what remains is to put the grammar together. -/
theorem read_of_readLines {name text : String} {st : State}
    (h : State.readLines {} 1 (lines text.toList) = .ok st) :
    read name text = match st.grammar name with
      | .ok g => .ok g
      | .error e => .error (.grammar e) := by
  rw [read, h]
  rfl

end Grammar

/-! ## Everything that is read is well-formed -/

/-- What holds of a grammar that has been read. -/
structure Proper (g : Grammar) : Prop where
  terminals_nodup : g.terminals.Nodup
  nonterminals_nodup : g.nonterminals.Nodup
  disjoint : ∀ s ∈ g.terminals, s ∉ g.nonterminals
  notReserved : ∀ s, s ∈ g.terminals ∨ s ∈ g.nonterminals → s.isReserved = false
  defined : ∀ s ∈ g.nonterminals, ∃ r ∈ g.rules, r.lhs = s
  written : ∀ r ∈ g.rules, r.written = [Symbol.epsilon] ∨
    ∀ s ∈ r.written, s ≠ Symbol.epsilon ∧ (s ∈ g.terminals ∨ s ∈ g.nonterminals)
  start : ∃ r, g.rules[0]? = some r ∧ r.lhs = g.start
  plain : ∀ s ∈ g.terminals, ∀ c ∈ s.toList, Text.isBlank c = false ∧ c ≠ '#' ∧ c ≠ '|'

/-- That cannot fail, as rules that were read fit together. -/
theorem ofRules_proper (name : String) {r : Symbol × List Symbol}
    {rules : List (Symbol × List Symbol)} (hrules : ∀ q ∈ r :: rules, Readable q) :
    Proper (ofRules name r rules) where
  terminals_nodup := nodup_eraseDups _
  nonterminals_nodup := nodup_eraseDups _
  disjoint := fun s hs => (mem_terminals_after.mp hs).2
  notReserved := by
    rintro s (hs | hs)
    · obtain ⟨⟨q, hq, hmem⟩, -⟩ := mem_terminals_after.mp hs
      exact ((hrules q hq).body s hmem).1.notReserved
    · obtain ⟨q, hq, rfl⟩ := mem_heads_after.mp hs
      exact (hrules q hq).head.notReserved
  defined := by
    intro s hs
    obtain ⟨q, hq, rfl⟩ := mem_heads_after.mp hs
    obtain ⟨k, hk⟩ := List.mem_iff_getElem?.mp hq
    exact ⟨_, mem_productions_after.mpr ⟨k, q, hk, rfl⟩, rfl⟩
  written := by
    intro p hp
    have hchecked := ofRules_checked name hrules
    rw [Production.written]
    split
    · exact .inl rfl
    · refine .inr fun s hs => ?_
      have hdeclared := hchecked.body_mem p hp s hs
      exact ⟨(hchecked.ne_of_mem hdeclared).1, hdeclared⟩
  start := by
    refine ⟨Production.ofWritten 0 r.1 r.2, ?_, rfl⟩
    simp [ofRules, State.productions, State.after]
  plain := by
    intro s hs c hc
    obtain ⟨⟨q, hq, hmem⟩, -⟩ := mem_terminals_after.mp hs
    obtain ⟨hname, hbar⟩ := (hrules q hq).body s hmem
    refine ⟨(hname.plain c hc).1, (hname.plain c hc).2, ?_⟩
    -- a bar in a body would have ended the alternative
    rintro rfl
    exact hbar hc

/-- A text has a faulty line, a line that is too long or no rules, or it is read as a
    proper grammar.  So the reader never puts together a malformed one. -/
theorem read_total (name text : String) :
    (∃ n f, read name text = .error (.line n f)) ∨
    read name text = .error .lineTooLong ∨
    read name text = .error (.grammar .empty) ∨
    ∃ g, read name text = .ok g ∧ Proper g := by
  have hnone : ∀ r ∈ ([] : List (Symbol × List Symbol)), Readable r := nofun
  obtain ⟨n, f, hread⟩ | hread | ⟨rules, hrules, hread⟩ :=
    readLines_after hnone 1 (lines text.toList)
  · refine .inl ⟨n, f, ?_⟩
    rw [read]
    exact congrArg (· >>= _) hread
  · refine .inr (.inl ?_)
    rw [read]
    exact congrArg (· >>= _) hread
  · refine .inr (.inr ?_)
    rw [read_of_readLines hread]
    cases rules with
    | nil => exact .inl rfl
    | cons r rules =>
        rw [grammar_after name hrules]
        exact .inr ⟨_, rfl, ofRules_proper name hrules⟩

end Bnf

end Grammar

end ShiftReduce
