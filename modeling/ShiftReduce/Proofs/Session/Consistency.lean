import ShiftReduce.Proofs.Simulator.Trace
import ShiftReduce.Session.Basic

/-! # Consistent sessions — what lines of any kind lead to

    A command sets the grammar, the parse and the cursor one after the other.
    What it comes to in the end is one of few things (`Effect`), and a command
    that fails has done none of them (`eval_passes`): when a parse or its
    continuation is already in place, the move of the cursor behind it cannot
    fail, because every run has a step.

    Between two lines a session is coherent.  The steps of its parse are a trace
    from number 0 on, however many continuations they were put together from: a
    trace that is cut behind a step from which a parse can go on, and another one
    from the number behind this step, are a trace (`Traced.splice`). -/

namespace ShiftReduce

namespace Simulator

/-- A parse with any parser leaves a trace. -/
theorem parse_traced (p : Simulator) (input : Bytes) (resume : Option Checkpoint) :
    Traced p.limit ((resume.map Checkpoint.step).getD 0) (p.parse input resume).accepted
      (p.parse input resume).steps := by
  rw [parse]
  split
  · exact parseTokens_traced p _ resume
  · exact parseTokens_traced p [] resume

/-- A trace has a step. -/
theorem Traced.steps_ne_nil {n : Nat} {index : Int} {accepted : Bool} {steps : List Step}
    (h : Traced n index accepted steps) : steps ≠ [] := by
  obtain ⟨last, hlast, -⟩ := h.last
  rintro rfl
  cases hlast

/-- A trace up to a step from which a parse can go on, and a trace that goes on
    from there. -/
theorem Traced.splice {n m k : Nat} {index : Int} {accepted accepted' : Bool}
    {steps more : List Step} {st : Step} (h : Traced n index accepted steps)
    (hst : steps[k]? = some st) (hkind : st.kind.isResumable = true)
    (hmore : Traced m (Word.next st.index) accepted' more) :
    Traced (n + m) index accepted' (steps.take (k + 1) ++ more) := by
  have hnot : st.kind.isFinal = false ∧ st.kind ≠ .reduce := by
    revert hkind
    cases st.kind <;> decide
  obtain ⟨hk, -⟩ := List.getElem?_eq_some_iff.mp hst
  obtain ⟨head, hhead, hindex, hplain⟩ := hmore.first
  obtain ⟨last, hlast, hends⟩ := hmore.last
  have hfront : (steps.take (k + 1)).getLast? = some st := by
    rw [List.getLast?_take, if_neg (Nat.succ_ne_zero k), Nat.add_sub_cancel, hst]
    rfl
  refine ⟨?_, ?_, ⟨last, ?_, hends⟩, ?_, ?_⟩
  · refine List.isChain_append.mpr ⟨h.chain.take (k + 1), hmore.chain, ?_⟩
    intro x hx y hy
    obtain rfl : st = x := Option.some.inj (hfront.symm.trans hx)
    obtain rfl : head = y := Option.some.inj (hhead.symm.trans hy)
    exact ⟨hindex, hnot.1, by simp [hnot.2, hplain]⟩
  · obtain ⟨first, hfirst, hplace⟩ := h.first
    refine ⟨first, ?_, hplace⟩
    rw [List.head?_append, List.head?_take, if_neg (Nat.succ_ne_zero k), hfirst]
    rfl
  · rw [List.getLast?_append, hlast]
    rfl
  · intro s hs
    rcases List.mem_append.mp hs with hs | hs
    · exact h.grounded s (List.mem_of_mem_take hs)
    · exact hmore.grounded s hs
  · -- the cut is not behind the last step
    have hcut : ¬ k + 1 = steps.length := by
      rw [← h.isFinal_iff hst, hnot.1]
      exact Bool.false_ne_true
    have hcount := h.count
    have hcount' := hmore.count
    rw [List.length_append, List.length_take]
    omega

end Simulator

namespace Session

open Simulator

/-! ## What a command can do -/

/-- What a line that succeeds can do to a session: load a grammar, begin a parse,
    go on with one, move the cursor, or nothing at all. -/
inductive Effect (read : String → FileReply) (s : Session) : Option Command → Session → Prop where
  | nothing {command : Option Command} (hcommand : command.bind Command.path? = none) :
      Effect read s command s
  | load {path : String} {g : Grammar} {c : Compilation} {cache : Compilation.Cache}
      (hg : loadGrammar read path = .ok g) (hc : s.cache.compile g = .ok (c, cache)) :
      Effect read s (some (.load [path]))
        { s with cache, compilation := some c, result := none, cursor := 0 }
  | parse {input : String} {c : Compilation} (hc : s.compilation = some c) :
      Effect read s (some (.parse input))
        { s with result := some ((s.parser c).parse (Bytes.ofText input) none), cursor := 0 }
  | resume {input : String} {c : Compilation} {r : Result} {st : Step}
      (hc : s.compilation = some c) (hr : s.result = some r) (hst : r.steps[s.cursor]? = some st)
      (hkind : st.kind.isResumable = true) :
      Effect read s (some (.resume input))
        { s with
          result := some (patch r s.cursor
            ((s.parser c).parse (Bytes.ofText input) (some st.checkpoint)))
          cursor := s.cursor + 1 }
  | move {command : Option Command} {r : Result} {place : Nat}
      (hcommand : command.bind Command.path? = none) (hr : s.result = some r)
      (hplace : place < r.steps.length) :
      Effect read s command { s with cursor := place }

/-- What a line comes to: an error and the session as it was, or no error and an
    effect.  The step at the cursor is missed only if it is not there. -/
inductive Passes (read : String → FileReply) (s : Session) (command : Option Command) :
    Option Error → Session → Prop where
  | fails {e : Error} (h : e = .noCurrent → s.result.isSome = true ∧ s.current? = none) :
      Passes read s command (some e) s
  | succeeds {after : Session} (h : Effect read s command after) :
      Passes read s command none after

namespace Passes

variable {read : String → FileReply} {s after : Session} {command : Option Command}

/-- A line that fails leaves the session as it was. -/
theorem unchanged {e : Error} (h : Passes read s command (some e) after) : after = s := by
  cases h with
  | fails => rfl

/-- The step at the cursor is missed only if there is none. -/
theorem missed (h : Passes read s command (some .noCurrent) after) :
    s.result.isSome = true ∧ s.current? = none := by
  cases h with
  | fails h => exact h rfl

end Passes

section Commands

variable {read : String → FileReply} {s : Session} {command : Command}

/-- A command that asks for a grammar passes if its rest does, given one. -/
theorem withGrammar_passes {next : Compilation → Outcome}
    (h : ∀ c, s.compilation = some c →
      Passes read s (some command) (next c).error (next c).session) :
    Passes read s (some command) (s.withGrammar next).error (s.withGrammar next).session := by
  rw [withGrammar]
  split
  · rename_i c hc
    exact h c hc
  · exact .fails nofun

/-- A command that asks for a parse passes if its rest does, given one. -/
theorem withParse_passes {next : Compilation → Result → Outcome}
    (h : ∀ c r, s.compilation = some c → s.result = some r →
      Passes read s (some command) (next c r).error (next c r).session) :
    Passes read s (some command) (s.withParse next).error (s.withParse next).session := by
  refine withGrammar_passes ?_
  intro c hc
  split
  · rename_i r hr
    exact h c r hc hr
  · exact .fails nofun

/-- A command that asks for the current step passes if its rest does, given one. -/
theorem withCurrent_passes {next : Step → Outcome} {r : Result} (hr : s.result = some r)
    (h : ∀ st, r.steps[s.cursor]? = some st →
      Passes read s (some command) (next st).error (next st).session) :
    Passes read s (some command) (s.withCurrent next).error (s.withCurrent next).session := by
  have hcurrent : s.current? = r.steps[s.cursor]? := by
    rw [current?, hr]
    rfl
  rw [withCurrent]
  split
  · rename_i st hst
    exact h st (hcurrent.symm.trans hst)
  · rename_i hnone
    refine .fails fun _ => ⟨?_, hnone⟩
    rw [hr]
    rfl

/-- A move to a step that the parse has. -/
theorem move_of_lt {r : Result} {place : Nat} (hr : s.result = some r)
    (hplace : place < r.steps.length) :
    (s.move r place).error = none ∧ (s.move r place).session = { s with cursor := place } := by
  have hinside : ¬ ((place : Int) < 0 ∨ (r.steps.length : Int) ≤ (place : Int)) := by omega
  have hcurrent : current? { s with cursor := place } = some (r.steps.get ⟨place, hplace⟩) := by
    rw [current?, hr]
    exact List.getElem?_eq_getElem hplace
  rw [move, if_neg hinside, showCurrent, withCurrent, Int.toNat_natCast, hcurrent]
  exact ⟨rfl, rfl⟩

/-- Moving the cursor passes, whether the place is within the parse or not. -/
theorem move_passes (hcommand : command.path? = none) {r : Result}
    (hr : s.result = some r) (place : Int) :
    Passes read s (some command) (s.move r place).error (s.move r place).session := by
  by_cases houtside : place < 0 ∨ (r.steps.length : Int) ≤ place
  · rw [move, if_pos houtside]
    exact .fails nofun
  · obtain ⟨n, rfl⟩ : ∃ n : Nat, place = n := ⟨place.toNat, by omega⟩
    have hplace : n < r.steps.length := by omega
    obtain ⟨herror, hsession⟩ := move_of_lt hr hplace
    rw [herror, hsession]
    exact .succeeds (.move hcommand hr hplace)

/-- Loading passes: it fails with the session as it was, or begins it anew with the
    grammar. -/
theorem load_passes (path : String) :
    Passes read s (some (.load [path])) (s.load read path).error (s.load read path).session := by
  rw [load]
  split
  · exact .fails nofun
  · rename_i g hg
    split
    · exact .fails nofun
    · rename_i c cache hc
      exact .succeeds (.load hg hc)

/-- A new parse has a first step. -/
theorem parse_passes (input : String) :
    Passes read s (some (.parse input)) (s.parse input).error (s.parse input).session := by
  refine withGrammar_passes ?_
  intro c hc
  have hpos := List.length_pos_iff.mpr
    (parse_traced (s.parser c) (Bytes.ofText input) none).steps_ne_nil
  obtain ⟨herror, hsession⟩ := move_of_lt
    (s := { s with result := some ((s.parser c).parse (Bytes.ofText input) none) }) rfl hpos
  show Passes read s _ (Session.move _ _ ((0 : Nat) : Int)).error
    (Session.move _ _ ((0 : Nat) : Int)).session
  rw [herror, hsession]
  exact .succeeds (.parse hc)

/-- A continuation has a step behind the one it goes on from. -/
theorem resume_passes (input : String) :
    Passes read s (some (.resume input)) (s.resume input).error (s.resume input).session := by
  refine withParse_passes ?_
  intro c r hc hr
  refine withCurrent_passes hr ?_
  intro st hst
  by_cases hkind : st.kind.isResumable = true
  · rw [if_pos hkind]
    have hpos := List.length_pos_iff.mpr
      (parse_traced (s.parser c) (Bytes.ofText input) (some st.checkpoint)).steps_ne_nil
    obtain ⟨hlt, -⟩ := List.getElem?_eq_some_iff.mp hst
    have hplace : s.cursor + 1 < (patch r s.cursor
        ((s.parser c).parse (Bytes.ofText input) (some st.checkpoint))).steps.length := by
      rw [patch, List.length_append, List.length_take]
      omega
    obtain ⟨herror, hsession⟩ := move_of_lt
      (s := { s with result := some (patch r s.cursor
        ((s.parser c).parse (Bytes.ofText input) (some st.checkpoint))) }) rfl hplace
    rw [Int.natCast_succ] at herror hsession
    rw [herror, hsession]
    exact .succeeds (.resume hc hr hst hkind)
  · rw [if_neg hkind]
    exact .fails nofun

/-- Moving to a step passes, whatever is given as its number. -/
theorem moveToNumber_passes {r : Result} (hr : s.result = some r) (arguments : List String) :
    Passes read s (some (.step arguments)) (s.moveToNumber r arguments).error
      (s.moveToNumber r arguments).session := by
  rw [moveToNumber.eq_def]
  split
  · split
    · exact move_passes rfl hr _
    · exact .fails nofun
  · exact .fails nofun

/-- Every command comes to an error and no change, or to an effect. -/
theorem perform_passes (command : Command) :
    Passes read s (some command) (s.perform read command).error
      (s.perform read command).session := by
  -- every command passes in one of two ways: it fails and
  -- leaves all as it was, or it has one of four effects
  cases command with
  | quit => exact .succeeds (.nothing rfl)
  | help => exact .succeeds (.nothing rfl)
  | load arguments =>
      match arguments with
      | [path] => exact load_passes path
      | [] => exact .fails nofun
      | _ :: _ :: _ => exact .fails nofun
  | parse input => exact parse_passes input
  | resume input => exact resume_passes input
  | grammar => exact withGrammar_passes fun _ _ => .succeeds (.nothing rfl)
  | first => exact withGrammar_passes fun _ _ => .succeeds (.nothing rfl)
  | states => exact withGrammar_passes fun _ _ => .succeeds (.nothing rfl)
  | table => exact withGrammar_passes fun _ _ => .succeeds (.nothing rfl)
  | next => exact withParse_passes fun _ _ _ hr => move_passes rfl hr _
  | previous => exact withParse_passes fun _ _ _ hr => move_passes rfl hr _
  | firstStep => exact withParse_passes fun _ _ _ hr => move_passes rfl hr _
  | last => exact withParse_passes fun _ _ _ hr => move_passes rfl hr _
  | step arguments => exact withParse_passes fun _ _ _ hr => moveToNumber_passes hr arguments
  | trace => exact withParse_passes fun _ _ _ _ => .succeeds (.nothing rfl)
  | tree =>
      exact withParse_passes fun _ _ _ hr =>
        withCurrent_passes hr fun _ _ => .succeeds (.nothing rfl)
  | unknown name => exact withParse_passes fun _ _ _ _ => .fails nofun

/-- So does every line. -/
theorem eval_passes (read : String → FileReply) (s : Session) (line : String) :
    Passes read s (Command.ofLine line) (s.eval read line).2.error (s.eval read line).1 := by
  rw [eval]
  split
  · rename_i hline
    rw [hline]
    exact .succeeds (.nothing rfl)
  · rename_i command hline
    rw [hline]
    exact perform_passes command

end Commands

/-! ## Coherent sessions -/

/-- A parse belongs to a grammar, the cursor is at one of its steps, and the steps
    are a trace. -/
structure Coherent (s : Session) : Prop where
  compiled : ∀ r, s.result = some r → s.compilation.isSome = true
  placed : ∀ r, s.result = some r → s.cursor < r.steps.length
  traced : ∀ r, s.result = some r → ∃ n, Traced n 0 r.accepted r.steps

namespace Coherent

variable {read : String → FileReply} {s : Session}

/-- A session without a grammar is coherent. -/
theorem fresh (limit : Nat) (cache : Compilation.Cache) :
    Coherent { limit, cache } :=
  ⟨nofun, nofun, nofun⟩

/-- A parse of a compiled grammar with the cursor at one of its steps. -/
theorem of_trace {limit : Nat} {cache : Compilation.Cache} {c : Compilation} {r : Result}
    {cursor n : Nat} (hcursor : cursor < r.steps.length) (htraced : Traced n 0 r.accepted r.steps) :
    Coherent { limit, cache, compilation := some c, result := some r, cursor } where
  compiled := fun _ _ => rfl
  placed := by
    rintro _ ⟨⟩
    exact hcursor
  traced := by
    rintro _ ⟨⟩
    exact ⟨n, htraced⟩

/-- One effect. -/
theorem effect {command : Option Command} {after : Session} (h : s.Coherent)
    (heffect : Effect read s command after) : after.Coherent := by
  obtain ⟨limit, cache, compilation, result, cursor⟩ := s
  cases heffect with
  | nothing => exact h
  | load => exact ⟨nofun, nofun, nofun⟩
  | @parse input c hc =>
      obtain rfl : compilation = some c := hc
      have htraced := parse_traced (parser ⟨limit, cache, some c, result, cursor⟩ c)
        (Bytes.ofText input) none
      exact of_trace (List.length_pos_iff.mpr htraced.steps_ne_nil) htraced
  | @resume input c r st hc hr hst hkind =>
      obtain rfl : compilation = some c := hc
      obtain ⟨n, htraced⟩ := h.traced r hr
      have hmore := parse_traced (parser ⟨limit, cache, some c, result, cursor⟩ c)
        (Bytes.ofText input) (some st.checkpoint)
      have hpos := List.length_pos_iff.mpr hmore.steps_ne_nil
      have hcursor : cursor < r.steps.length := h.placed r hr
      refine of_trace ?_ (htraced.splice hst hkind hmore)
      -- the cursor moves to the first step that was patched in, and there is one
      show cursor + 1 < _
      rw [patch, List.length_append, List.length_take]
      dsimp only
      omega
  | move _ hr hplace =>
      refine ⟨h.compiled, ?_, h.traced⟩
      intro r' hr'
      obtain rfl := Option.some.inj (hr.symm.trans hr')
      exact hplace

/-- One line. -/
theorem passes {command : Option Command} {error : Option Error} {after : Session}
    (h : s.Coherent) (hpasses : Passes read s command error after) : after.Coherent := by
  cases hpasses with
  | fails => exact h
  | succeeds heffect => exact h.effect heffect

/-- The step at the cursor is there. -/
theorem current?_isSome (h : s.Coherent) (hresult : s.result.isSome = true) :
    s.current?.isSome = true := by
  obtain ⟨r, hr⟩ := Option.isSome_iff_exists.mp hresult
  rw [current?, hr, Option.bind_some, List.getElem?_eq_getElem (h.placed r hr)]
  rfl

end Coherent

/-- The session after some lines.  What the files hold may change from line to
    line. -/
def evalAll (s : Session) (lines : List ((String → FileReply) × String)) : Session :=
  lines.foldl (fun s l => (s.eval l.1 l.2).1) s

/-- All lines. -/
theorem Coherent.evalAll {s : Session} (h : s.Coherent)
    (lines : List ((String → FileReply) × String)) : (s.evalAll lines).Coherent := by
  induction lines generalizing s with
  | nil => exact h
  | cons l lines ih => exact ih (h.passes (eval_passes l.1 s l.2))

/-- What holds of the parse of a session: there is a grammar that it belongs to,
    the cursor is at one of its steps, its steps are numbered from 0 on, its last
    step and no other is an acceptance or an error, and it is accepted if its last
    step says so. -/
structure Sane (s : Session) (r : Result) : Prop where
  compiled : s.compilation.isSome = true
  placed : s.cursor < r.steps.length
  current : ∃ st, s.current? = some st
  numbered : ∀ (k : Nat) (st : Step), r.steps[k]? = some st →
    st.index = Word.wrap k ∧ ((k : Int) < 9223372036854775808 → st.index = k)
  final : ∀ (k : Nat) (st : Step), r.steps[k]? = some st →
    (st.kind ∈ [StepKind.accept, .syntaxError, .gotoError, .internalError] ↔
      k + 1 = r.steps.length)
  accepted : r.accepted = true ↔ r.last?.map Step.kind = some .accept

/-- A parse of a coherent session is as it should be. -/
theorem Coherent.sane {s : Session} (h : s.Coherent) {r : Result} (hr : s.result = some r) :
    s.Sane r := by
  obtain ⟨n, htraced⟩ := h.traced r hr
  obtain ⟨last, hlast, -, haccepted⟩ := htraced.last
  refine ⟨h.compiled r hr, h.placed r hr, ?_, ?_, ?_, ?_⟩
  · refine Option.isSome_iff_exists.mp (h.current?_isSome ?_)
    rw [hr]
    rfl
  · intro k st hst
    have hindex := htraced.index_eq rfl hst
    rw [Int.zero_add] at hindex
    refine ⟨hindex, ?_⟩
    intro hfits
    rw [hindex]
    exact Word.wrap_of_fits (by omega) hfits
  · intro k st hst
    rw [← htraced.isFinal_iff hst]
    cases st.kind <;> decide
  · rw [Result.last?, hlast, haccepted]
    simp

/-- **Sessions stay sane, and errors change nothing.**  After any lines, with any
    files, the parse of a session is as `Sane` says.  The next line, whatever it
    is, finds the step at the cursor if it looks for it, and if it ends with an
    error it leaves the whole session as it was. -/
theorem eval_sane_or_unchanged (limit : Nat) (cache : Compilation.Cache)
    (lines : List ((String → FileReply) × String)) (read : String → FileReply) (line : String) :
    let s := evalAll { limit, cache } lines
    (∀ r, s.result = some r → s.Sane r) ∧
    (s.eval read line).2.error ≠ some .noCurrent ∧
    (∀ e, (s.eval read line).2.error = some e → (s.eval read line).1 = s) := by
  intro s
  have hcoherent : s.Coherent := (Coherent.fresh limit cache).evalAll lines
  have hpasses := eval_passes read s line
  refine ⟨fun r hr => hcoherent.sane hr, ?_, ?_⟩
  · intro hmissed
    rw [hmissed] at hpasses
    obtain ⟨hresult, hnone⟩ := hpasses.missed
    have hsome := hcoherent.current?_isSome hresult
    rw [hnone] at hsome
    cases hsome
  · intro e he
    rw [he] at hpasses
    exact hpasses.unchanged

end Session

end ShiftReduce
