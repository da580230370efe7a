import Mathlib.Data.List.Chain
import ShiftReduce.Proofs.Simulator.Rounds

/-! # Traces — what every run records, whatever it is given

    Nothing is assumed here of grammar, table, tokens and stack: the table may
    be that of another grammar, and a checkpoint may have any numbers and any
    symbols.  Still the steps of a run have one shape.  Their numbers count up,
    a reduction and its goto stand side by side, and one step, the last one,
    ends the run.  All of this is about neighbours (`Step.Precedes`), so a trace
    is a chain of them, and a round puts one or two steps in front of a trace
    (`turn_traces`).  Every fault is a step like any other: a round that fails
    in the middle of a reduction has a stack that is lower, but not empty. -/

namespace ShiftReduce

namespace Simulator

/-- Whether a step of this kind ends a run. -/
def StepKind.isFinal : StepKind → Bool
  | .accept | .syntaxError | .gotoError | .internalError => true
  | .shift | .reduce | .goTo => false

/-- What stands side by side in a trace: the numbers count up, nothing comes
    behind a step that ends the run, and a goto, found or not, comes right behind
    a reduction and nowhere else. -/
structure Step.Precedes (st st' : Step) : Prop where
  index_eq : st'.index = Word.next st.index
  goesOn : st.kind.isFinal = false
  pairs : st.kind = .reduce ↔ st'.kind = .goTo ∨ st'.kind = .gotoError

/-- The steps that a run records from a number on within some rounds. -/
structure Traced (rounds : Nat) (index : Int) (accepted : Bool) (steps : List Step) : Prop where
  chain : steps.IsChain Step.Precedes
  first : ∃ st, steps.head? = some st ∧ st.index = index ∧
    ¬ (st.kind = .goTo ∨ st.kind = .gotoError)
  last : ∃ st, steps.getLast? = some st ∧ st.kind.isFinal = true ∧
    (accepted = true ↔ st.kind = .accept)
  grounded : ∀ st ∈ steps, st.stack ≠ []
  count : steps.length ≤ 2 * rounds + 1

/-! ## A round in front of a trace -/

section Rounds

variable {n : Nat} {index : Int} {accepted : Bool} {st st' : Step} {later : List Step}

/-- One step that ends the run. -/
theorem Traced.single (n : Nat) (hindex : st.index = index) (hstack : st.stack ≠ [])
    (hfinal : st.kind.isFinal = true) (hgoto : st.kind ≠ .gotoError)
    (haccepted : accepted = true ↔ st.kind = .accept) : Traced n index accepted [st] where
  chain := .singleton st
  first := by
    refine ⟨st, rfl, hindex, ?_⟩
    rintro (h | h)
    · rw [h] at hfinal
      exact nomatch hfinal
    · exact hgoto h
  last := ⟨st, rfl, hfinal, haccepted⟩
  grounded := by
    intro s hs
    rw [List.mem_singleton.mp hs]
    exact hstack
  count := by
    show 1 ≤ 2 * n + 1
    omega

/-- A fault ends the run. -/
theorem Traced.fault (n : Nat) {c : Configuration} (hindex : c.index = index)
    (hstack : c.stack ≠ []) (f : Fault) : Traced n index false [c.record (.fault f) none] := by
  refine .single n hindex hstack rfl ?_ ?_
  · rintro ⟨⟩
  · simp [Step.kind, Configuration.record, Move.kind]

/-- A shift comes before a trace. -/
theorem Traced.shift (hindex : st.index = index) (hstack : st.stack ≠ [])
    (hkind : st.kind = .shift) (h : Traced n (Word.next index) accepted later) :
    Traced (n + 1) index accepted (st :: later) := by
  subst hindex
  obtain ⟨head, hhead, hnext, hplain⟩ := h.first
  obtain ⟨final, hfinal, hends⟩ := h.last
  refine ⟨?_, ⟨st, rfl, rfl, ?_⟩, ⟨final, ?_, hends⟩, ?_, ?_⟩
  · refine h.chain.cons ?_
    intro other hother
    obtain rfl : head = other := Option.some.inj (hhead.symm.trans hother)
    exact ⟨hnext, by rw [hkind]; rfl, by simp [hkind, hplain]⟩
  · simp [hkind]
  · rw [List.getLast?_cons, hfinal]
    rfl
  · intro s hs
    rcases List.mem_cons.mp hs with rfl | hs
    · exact hstack
    · exact h.grounded s hs
  · have hcount := h.count
    rw [List.length_cons]
    omega

/-- A reduction and its goto come before a trace. -/
theorem Traced.reduce (hindex : st.index = index) (hstack : st.stack ≠ [])
    (hkind : st.kind = .reduce) (hindex' : st'.index = Word.next index) (hstack' : st'.stack ≠ [])
    (hkind' : st'.kind = .goTo) (h : Traced n (Word.next (Word.next index)) accepted later) :
    Traced (n + 1) index accepted (st :: st' :: later) := by
  subst hindex
  rw [← hindex'] at h
  obtain ⟨head, hhead, hnext, hplain⟩ := h.first
  obtain ⟨final, hfinal, hends⟩ := h.last
  refine ⟨?_, ⟨st, rfl, rfl, ?_⟩, ⟨final, ?_, hends⟩, ?_, ?_⟩
  · -- the reduction beside its goto, then the goto beside the trace
    refine List.isChain_cons_cons.mpr ⟨⟨hindex', by rw [hkind]; rfl, by simp [hkind, hkind']⟩, ?_⟩
    refine h.chain.cons ?_
    intro other hother
    obtain rfl : head = other := Option.some.inj (hhead.symm.trans hother)
    exact ⟨hnext, by rw [hkind']; rfl, by simp [hkind', hplain]⟩
  · simp [hkind]
  · rw [List.getLast?_cons, List.getLast?_cons, hfinal]
    rfl
  · intro s hs
    rcases List.mem_cons.mp hs with rfl | hs
    · exact hstack
    · rcases List.mem_cons.mp hs with rfl | hs
      · exact hstack'
      · exact h.grounded s hs
  · have hcount := h.count
    rw [List.length_cons, List.length_cons]
    omega

/-- A reduction without a goto ends the run. -/
theorem Traced.lost (n : Nat) (hindex : st.index = index) (hstack : st.stack ≠ [])
    (hkind : st.kind = .reduce) (hindex' : st'.index = Word.next index) (hstack' : st'.stack ≠ [])
    (hkind' : st'.kind = .gotoError) : Traced (n + 1) index false [st, st'] where
  chain := List.isChain_pair.mpr
    ⟨by rw [hindex, hindex'], by rw [hkind]; rfl, by simp [hkind, hkind']⟩
  first := ⟨st, rfl, hindex, by simp [hkind]⟩
  last := ⟨st', rfl, by rw [hkind']; rfl, by simp [hkind']⟩
  grounded := by
    intro s hs
    rcases List.mem_pair.mp hs with rfl | rfl
    · exact hstack
    · exact hstack'
  count := by
    show 2 ≤ 2 * (n + 1) + 1
    omega

end Rounds

/-- A round that goes on comes before every trace that goes on from it, and one
    that ends the run is a trace. -/
def Turn.Traces (index : Int) : Turn → Prop
  | .goesOn steps next => next.stack ≠ [] ∧ ∀ {n : Nat} {accepted : Bool} {later : List Step},
      Traced n next.index accepted later → Traced (n + 1) index accepted (steps ++ later)
  | .ends steps accepted _ => Traced 1 index accepted steps

section Turns

variable {g : Grammar} {t : Table} {c : Configuration} {index : Int}

/-- A stop writes the one step it ends with, numbered by the counter. -/
theorem stop_traces (hindex : c.index = index) (hstack : c.stack ≠ []) {m : Move} {accepted : Bool}
    (hfinal : m.kind.isFinal = true) (hgoto : m.kind ≠ .gotoError)
    (haccepted : accepted = true ↔ m.kind = .accept) : (c.stop m accepted).Traces index :=
  Traced.single 1 hindex hstack hfinal hgoto haccepted

/-- A fault is a final step that neither accepts nor is a goto. -/
theorem fault_traces (hindex : c.index = index) (hstack : c.stack ≠ []) (f : Fault) :
    (c.stop (.fault f) false).Traces index :=
  Traced.fault 1 hindex hstack f

/-- A goto writes one step and goes on, or writes the goto error and ends. -/
theorem goTo_traces (hindex : c.index = index) (hstack : c.stack ≠ []) (r : Production)
    (node : Node) : (goTo t c r node).Traces index := by
  subst hindex
  rw [goTo]
  dsimp only
  cases t.goto? c.tick.state r.lhs with
  | none => exact Traced.lost 0 rfl hstack rfl rfl hstack rfl
  | some target =>
      refine ⟨List.cons_ne_nil _ _, ?_⟩
      intro n accepted later h
      exact Traced.reduce rfl hstack rfl rfl (List.cons_ne_nil _ _) rfl h

/-- Below the body of a rule that is shorter than the stack, something is left. -/
theorem reduce_traces (hstack : c.stack ≠ []) (r : Production) :
    (reduce t c r).Traces c.index := by
  rw [reduce]
  by_cases hdeep : c.stack.length ≤ r.length
  · rw [if_pos hdeep]
    exact fault_traces rfl hstack _
  · rw [if_neg hdeep]
    dsimp only
    have hleft : c.stack.drop r.length ≠ [] := by
      intro hnil
      exact hdeep (List.drop_eq_nil_iff.mp hnil)
    cases ((handle c r).2.interior r.lhs r.id (handle c r).1).1 with
    | none =>
        refine fault_traces ?_ ?_ .absentNode
        · rfl
        · exact hleft
    | some node => exact goTo_traces rfl hleft r node

/-- One round, with any grammar and any table. -/
theorem turn_traces (g : Grammar) (t : Table) (hstack : c.stack ≠ []) :
    (turn g t c).Traces c.index := by
  refine turn_cases (P := fun u => u.Traces c.index) ?_ ?_ ?_ ?_ ?_
  · intro _
    exact stop_traces rfl hstack rfl nofun (by simp [Move.kind])
  · intro _
    exact stop_traces rfl hstack rfl nofun (by simp [Move.kind])
  · intro target _
    refine ⟨List.cons_ne_nil _ _, ?_⟩
    intro n accepted later h
    exact Traced.shift rfl (List.cons_ne_nil _ _) rfl h
  · intro p _ _
    exact fault_traces rfl hstack _
  · intro p r _ _
    exact reduce_traces hstack r

end Turns

/-! ## Runs and plays -/

section Plays

variable {g : Grammar} {t : Table} {c d : Configuration} {n : Nat} {steps : List Step}

/-- A run comes before every trace that goes on from its end. -/
theorem Runs.traces (h : Runs g t n c steps d) (hstack : c.stack ≠ []) :
    d.stack ≠ [] ∧ ∀ {m : Nat} {accepted : Bool} {later : List Step},
      Traced m d.index accepted later → Traced (n + m) c.index accepted (steps ++ later) := by
  induction h with
  | refl c =>
      refine ⟨hstack, ?_⟩
      intro m accepted later hlater
      rw [Nat.zero_add]
      exact hlater
  | @step n c next d steps later hturn _ ih =>
      have hround := turn_traces g t hstack
      rw [hturn] at hround
      obtain ⟨hnext, hfront⟩ := hround
      obtain ⟨hd, hrest⟩ := ih hnext
      refine ⟨hd, ?_⟩
      intro m accepted last hlast
      rw [Nat.add_right_comm, List.append_assoc]
      exact hfront (hrest hlast)

theorem Traced.mono {m : Nat} {index : Int} {accepted : Bool} (h : Traced n index accepted steps)
    (hle : n ≤ m) : Traced m index accepted steps :=
  { h with count := Nat.le_trans h.count (by omega) }

/-- A play is a trace within its limit. -/
theorem play_traced (g : Grammar) (t : Table) (limit : Nat) (hstack : c.stack ≠ []) :
    Traced limit c.index (play g t limit limit c []).accepted
      (play g t limit limit c []).steps := by
  rcases play_cases (g := g) (t := t) limit limit c [] with
    ⟨steps, d, hruns, hres⟩ | ⟨n, steps, d, later, accepted, final, hn, hruns, hend, hres⟩
  · obtain ⟨hd, hfront⟩ := hruns.traces hstack
    rw [hres]
    exact hfront (.fault 0 rfl hd (.iterationLimit limit))
  · obtain ⟨hd, hfront⟩ := hruns.traces hstack
    have hround := turn_traces g t hd
    rw [hend] at hround
    rw [hres]
    exact (hfront hround).mono hn

end Plays

/-! ## The beginning of a run -/

/-- Restoring a checkpoint adds one frame for each of its entries. -/
theorem length_restoreFrames (entries : List (Int × Symbol)) :
    ∀ (bottom : Bool) (stack : List Frame) (b : Tree.Builder),
      (restoreFrames bottom stack b entries).1.length = stack.length + entries.length := by
  induction entries with
  | nil => intro bottom stack b; rfl
  | cons entry entries ih =>
      intro bottom stack b
      obtain ⟨state, symbol⟩ := entry
      rw [restoreFrames]
      split
      · rw [ih, List.length_cons, List.length_cons]
        omega
      · dsimp only
        rw [ih, List.length_cons, List.length_cons]
        omega

theorem length_padFront {α : Type} (filler : α) {length : Nat} {xs : List α}
    (h : xs.length ≤ length) : (padFront filler length xs).length = length := by
  rw [padFront, List.length_append, List.length_replicate]
  omega

/-- A restored stack is as high as the longer list of the checkpoint. -/
theorem length_restore (k : Checkpoint) :
    k.restore.1.length = max k.states.length k.symbols.length := by
  rw [Checkpoint.restore, length_restoreFrames, List.length_zip,
    length_padFront 0 (Nat.le_max_left _ _),
    length_padFront Symbol.endMarker (Nat.le_max_right _ _), Nat.min_self]
  exact Nat.zero_add _

/-- A run begins with a stack that is not empty. -/
theorem start_stack_ne (tokens : List Token) (resume : Option Checkpoint) :
    (Configuration.start tokens resume).stack ≠ [] := by
  cases resume with
  | none => exact List.cons_ne_nil _ _
  | some k =>
      rw [Configuration.start]
      dsimp only
      split
      · exact List.cons_ne_nil _ _
      · rename_i hsome
        intro hnil
        have hlength := length_restore k
        rw [show k.restore.1 = [] from hnil, List.length_nil] at hlength
        have hstates : k.states = [] := List.length_eq_zero_iff.mp (by omega)
        have hsymbols : k.symbols = [] := List.length_eq_zero_iff.mp (by omega)
        exact hsome (by rw [hstates, hsymbols]; rfl)

/-- The number of the first step. -/
theorem start_index (tokens : List Token) (resume : Option Checkpoint) :
    (Configuration.start tokens resume).index = (resume.map Checkpoint.step).getD 0 := by
  cases resume with
  | none => rfl
  | some k =>
      rw [Configuration.start]
      dsimp only
      split
      · rfl
      · rfl

/-- Every parse leaves a trace, whatever it is given. -/
theorem parseTokens_traced (p : Simulator) (tokens : List Token) (resume : Option Checkpoint) :
    Traced p.limit ((resume.map Checkpoint.step).getD 0) (p.parseTokens tokens resume).accepted
      (p.parseTokens tokens resume).steps := by
  have hstack := start_stack_ne tokens resume
  rw [← start_index tokens resume, parseTokens]
  split
  · exact play_traced _ _ p.limit hstack
  · exact .fault p.limit rfl hstack .notInitialized

/-! ## Places in a trace -/

namespace Traced

variable {n : Nat} {index : Int} {accepted : Bool} {steps : List Step} {k : Nat} {st st' : Step}

theorem precedes (h : Traced n index accepted steps) (hst : steps[k]? = some st)
    (hst' : steps[k + 1]? = some st') : st.Precedes st' := by
  obtain ⟨hk, rfl⟩ := List.getElem?_eq_some_iff.mp hst
  obtain ⟨hk', rfl⟩ := List.getElem?_eq_some_iff.mp hst'
  exact h.chain.getElem k hk'

/-- A trace begins with the number it is given, and not with a goto. -/
theorem head_plain (h : Traced n index accepted steps) (hst : steps[0]? = some st) :
    st.index = index ∧ ¬ (st.kind = .goTo ∨ st.kind = .gotoError) := by
  obtain ⟨head, hhead, hplain⟩ := h.first
  rw [List.head?_eq_getElem?] at hhead
  obtain rfl : head = st := Option.some.inj (hhead.symm.trans hst)
  exact hplain

/-- The numbers of the steps count up, as words do. -/
theorem index_eq (h : Traced n index accepted steps) (hword : Word.wrap index = index) :
    ∀ {k : Nat} {st : Step}, steps[k]? = some st → st.index = Word.wrap (index + k) := by
  intro k
  induction k with
  | zero =>
      intro st hst
      rw [(h.head_plain hst).1, Int.natCast_zero, Int.add_zero, hword]
  | succ k ih =>
      intro st hst
      obtain ⟨before, hbefore⟩ : ∃ before, steps[k]? = some before := by
        have hlt := (List.getElem?_eq_some_iff.mp hst).1
        exact ⟨_, List.getElem?_eq_getElem (Nat.lt_of_succ_lt hlt)⟩
      rw [(h.precedes hbefore hst).index_eq, ih hbefore, Word.next_wrap, Int.natCast_succ,
        Int.add_assoc]

/-- The last step ends the run, and no other does. -/
theorem isFinal_iff (h : Traced n index accepted steps) (hst : steps[k]? = some st) :
    st.kind.isFinal = true ↔ k + 1 = steps.length := by
  obtain ⟨hk, -⟩ := List.getElem?_eq_some_iff.mp hst
  constructor
  · intro hfinal
    by_contra hne
    have hnext : steps[k + 1]? = some _ := List.getElem?_eq_getElem (by omega)
    rw [(h.precedes hst hnext).goesOn] at hfinal
    exact nomatch hfinal
  · intro hlast
    obtain ⟨last, hgetLast, hfinal, -⟩ := h.last
    rw [List.getLast?_eq_getElem?, ← hlast, Nat.add_sub_cancel, hst] at hgetLast
    rw [Option.some.inj hgetLast]
    exact hfinal

/-- Behind a reduce step comes its goto, or the goto error. -/
theorem goto_of_reduce (h : Traced n index accepted steps) (hst : steps[k]? = some st)
    (hkind : st.kind = .reduce) :
    ∃ st', steps[k + 1]? = some st' ∧ (st'.kind = .goTo ∨ st'.kind = .gotoError) := by
  obtain ⟨hk, -⟩ := List.getElem?_eq_some_iff.mp hst
  have hmore : k + 1 ≠ steps.length := by
    intro hlast
    have hfinal := (h.isFinal_iff hst).mpr hlast
    rw [hkind] at hfinal
    exact nomatch hfinal
  have hnext : steps[k + 1]? = some _ := List.getElem?_eq_getElem (by omega)
  exact ⟨_, hnext, (h.precedes hst hnext).pairs.mp hkind⟩

/-- In front of a goto, or of a goto error, stands the reduce step it belongs to. -/
theorem reduce_of_goto (h : Traced n index accepted steps) (hst : steps[k]? = some st)
    (hkind : st.kind = .goTo ∨ st.kind = .gotoError) :
    ∃ j st', k = j + 1 ∧ steps[j]? = some st' ∧ st'.kind = .reduce := by
  obtain ⟨hk, -⟩ := List.getElem?_eq_some_iff.mp hst
  cases k with
  | zero => exact absurd hkind (h.head_plain hst).2
  | succ j =>
      have hbefore : steps[j]? = some _ := List.getElem?_eq_getElem (Nat.lt_of_succ_lt hk)
      exact ⟨j, _, rfl, hbefore, (h.precedes hbefore hst).pairs.mpr hkind⟩

end Traced

/-- What every result is like: how many steps it has and how they are numbered,
    which of them end the run, how reductions and gotos go together, and that
    states and symbols are equally many and at least one. -/
structure Result.Regular (limit : Nat) (first : Int) (r : Result) : Prop where
  count : 1 ≤ r.steps.length ∧ r.steps.length ≤ 2 * limit + 1
  numbered : ∀ (k : Nat) (st : Step), r.steps[k]? = some st →
    st.index = Word.wrap (first + k) ∧ (first + k < 9223372036854775808 → st.index = first + k)
  final : ∀ (k : Nat) (st : Step), r.steps[k]? = some st →
    (st.kind ∈ [StepKind.accept, .syntaxError, .gotoError, .internalError] ↔
      k + 1 = r.steps.length)
  accepted : r.accepted = true ↔ r.last?.map Step.kind = some .accept
  reduced : ∀ (k : Nat) (st : Step), r.steps[k]? = some st → st.kind = .reduce →
    ∃ st', r.steps[k + 1]? = some st' ∧ (st'.kind = .goTo ∨ st'.kind = .gotoError)
  entered : ∀ (k : Nat) (st : Step), r.steps[k]? = some st →
    st.kind = .goTo ∨ st.kind = .gotoError →
      ∃ j st', k = j + 1 ∧ r.steps[j]? = some st' ∧ st'.kind = .reduce
  heights : ∀ st ∈ r.steps, st.states.length = st.symbols.length ∧ 1 ≤ st.states.length

/-- **The simulator never fails.**  With any grammar or none, any table or none,
    any tokens and any checkpoint whose number is a word, a parse gives a regular
    result: its steps are numbered from that of the checkpoint on, its last step
    and no other is an acceptance or an error, reductions and gotos stand side by
    side, and no stack is empty. -/
theorem parseTokens_regular (p : Simulator) (tokens : List Token) (resume : Option Checkpoint)
    (hresume : ∀ k ∈ resume,
      -9223372036854775808 ≤ k.step ∧ k.step < 9223372036854775808) :
    (p.parseTokens tokens resume).Regular p.limit ((resume.map Checkpoint.step).getD 0) := by
  have h := parseTokens_traced p tokens resume
  obtain ⟨hlow, hhigh⟩ : -9223372036854775808 ≤ (resume.map Checkpoint.step).getD 0 ∧
      (resume.map Checkpoint.step).getD 0 < 9223372036854775808 := by
    cases resume with
    | none => decide
    | some k => exact hresume k rfl
  obtain ⟨last, hlast, -, haccepted⟩ := h.last
  refine ⟨⟨?_, h.count⟩, ?_, ?_, ?_, fun k st => h.goto_of_reduce, fun k st => h.reduce_of_goto, ?_⟩
  · exact List.length_pos_of_mem (List.mem_of_getLast? hlast)
  · intro k st hst
    -- numbers count up as words do, and as integers as long as they fit
    have hindex := h.index_eq (Word.wrap_of_fits hlow hhigh) hst
    refine ⟨hindex, ?_⟩
    intro hfits
    rw [hindex]
    exact Word.wrap_of_fits (by omega) hfits
  · intro k st hst
    rw [← h.isFinal_iff hst]
    cases st.kind <;> decide
  · rw [Result.last?, hlast, haccepted]
    simp
  · intro st hst
    have hstack := List.length_pos_iff.mpr (h.grounded st hst)
    rw [Step.states, Step.symbols, List.length_map, List.length_map, List.length_reverse]
    exact ⟨rfl, hstack⟩

/-- A parser whose table reduces in its only state, and has no goto at all. -/
def strayParser : Simulator :=
  { grammar := some { name := "stray", start := "S", terminals := ["a"], nonterminals := ["S"]
                      rules := [{ id := 0, lhs := "S", body := ["a"] }] }
    table := some ((Table.blank 1 ["a"] []).setAction 0 "a" (.reduce 0))
    limit := 3 }

/-- A checkpoint with the greatest number and with fewer states than symbols. -/
def strayCheckpoint : Checkpoint :=
  { states := [0], symbols := ["$", "x", "y"], step := 9223372036854775807 }

/-- Behind the stray checkpoint the stray parser reduces and finds no goto; its
    second step has the least number. -/
theorem parseTokens_regular_stray :
    ((strayParser.parseTokens [⟨"a", [97], ⟨0, 1⟩⟩] (some strayCheckpoint)).steps.map
        fun st => (st.index, st.kind, st.symbols))
      = [(9223372036854775807, .reduce, ["$", "x"]),
        (-9223372036854775808, .gotoError, ["$", "x"])] ∧
    (strayParser.parseTokens [⟨"a", [97], ⟨0, 1⟩⟩] (some strayCheckpoint)).Regular 3
      9223372036854775807 := by
  refine ⟨by decide +kernel, ?_⟩
  refine parseTokens_regular strayParser [⟨"a", [97], ⟨0, 1⟩⟩] (some strayCheckpoint) ?_
  intro k hk
  obtain rfl := Option.some.inj hk
  decide

end Simulator

end ShiftReduce
