import ShiftReduce.Proofs.Automaton.Entrance
import ShiftReduce.Proofs.Parser.Outcome
import ShiftReduce.Proofs.Table.Provenance

/-! # Acceptance — there is one accepting configuration

    Every shift, acceptance and goto of a table is backed by its automaton: there is
    a transition or an accepting state (`backed_build`).  So the stack of a fresh run
    follows the transitions from state 0, whatever the rounds do (`Climbs`).  There is
    one accepting state, one transition leads to it, from state 0, and none leads back
    there.  Therefore an accepting stack has two frames, the bottom and the one of the
    old start symbol.

    Conflicts do not matter, nor do symbols that are terminals and nonterminals, nor
    how often the grammar was augmented: a run can get stuck for such reasons, but it
    leaves the transitions for none of them. -/

namespace ShiftReduce

/-- A transition between states that are given as on stacks and in tables. -/
def Automaton.Leads (m : Automaton) (k : Int) (x : Symbol) (l : Int) : Prop :=
  ∃ n j : Nat, k = n ∧ l = j ∧ m.goto? n x = some j

namespace Table

/-- What an automaton has to have for an action. -/
def Justified (m : Automaton) (n : Nat) (x : Symbol) : Action → Prop
  | .shift l => m.Leads n x l
  | .accept => ∃ st, m.states[n]? = some st ∧ st.accepts = true
  | .reduce _ => True

/-- A table that shifts, accepts and goes on only where an automaton does. -/
def Backed (m : Automaton) (t : Table) : Prop :=
  t.Sourced (Justified m) fun n => m.Leads n

/-- The tables of a planted grammar are backed by its automaton, as long as the
    numbers of rules and states fit into cells. -/
theorem backed_build {a : Analysis} {s : Symbol} (h : Automaton.Charted a.grammar)
    (hg : a.grammar.Planted s) (hrules : a.grammar.size ≤ 2147483646)
    (hstates : (Automaton.build a.grammar).size ≤ 2147483648) :
    (build a (Automaton.build a.grammar)).Backed (Automaton.build a.grammar) := by
  have hplace : ∀ st ∈ (Automaton.build a.grammar).states,
      (Automaton.build a.grammar).states[st.id]? = some st := by
    intro st hst
    obtain ⟨k, hk⟩ := List.mem_iff_getElem?.mp hst
    rw [(Automaton.getElem?_states.mp hk).1]
    exact hk
  have htarget : ∀ st ∈ (Automaton.build a.grammar).states, ∀ e ∈ st.transitions,
      e.2 < 2147483648 ∧ (Automaton.build a.grammar).Leads st.id e.1 e.2 := by
    intro st hst e he
    obtain ⟨-, -, st', hst', -⟩ := h.target (hplace st hst) he
    obtain ⟨hlt, -⟩ := List.getElem?_eq_some_iff.mp hst'
    exact ⟨Nat.lt_of_lt_of_le hlt hstates, st.id, e.2, rfl, rfl,
      h.goto?_eq_some_iff.mpr ⟨st, hplace st hst, he⟩⟩
  refine sourced_build ?_ ?_ ?_ ?_
  · -- a shift and a goto are read back with the number of the state they lead to
    intro st hst e he _
    obtain ⟨hlt, hleads⟩ := htarget st hst e he
    have hfits : (Action.shift e.2).Fits := ⟨Int.natCast_nonneg _, by omega⟩
    rw [Action.decode_encode hfits]
    exact hleads
  · intro st hst e he
    obtain ⟨hlt, hleads⟩ := htarget st hst e he
    rw [Int32.toInt_ofNat_of_lt hlt]
    exact hleads
  · -- acceptance is written for the accepting item only
    intro st hst i hi r hr hnext hlhs
    refine ⟨st, hplace st hst, Automaton.State.accepts_iff.mpr ?_⟩
    rw [← (h.known (hplace st hst) hi).1.eq_accepting hg hr hnext hlhs]
    exact hi
  · -- a reduction is read back as a reduction, whatever it is written for
    intro st _ r hr x
    rw [Action.decode_encode (fits_of_rule hg.toChecked hrules hr)]
    trivial

end Table

namespace Simulator

/-! ## Stacks that follow transitions -/

/-- A stack that follows the transitions of an automaton from state 0. -/
inductive Climbs (m : Automaton) : List Frame → Prop where
  | bottom : Climbs m freshStack
  | push {f below : Frame} {stack : List Frame} (h : Climbs m (below :: stack))
      (hleads : m.Leads below.state f.symbol f.state) : Climbs m (f :: below :: stack)

namespace Climbs

variable {m : Automaton} {stack : List Frame}

/-- A stack climbs further along a transition. -/
theorem cons (h : Climbs m stack) {f : Frame}
    (hleads : m.Leads ((stack.head?.map Frame.state).getD 0) f.symbol f.state) :
    Climbs m (f :: stack) := by
  cases stack with
  | nil => cases h
  | cons below stack => exact .push h hleads

/-- Frames can be taken off, if the bottom stays. -/
theorem drop (h : Climbs m stack) {k : Nat} (hk : k < stack.length) : Climbs m (stack.drop k) := by
  induction h generalizing k with
  | bottom =>
      obtain rfl : k = 0 := Nat.lt_one_iff.mp hk
      exact .bottom
  | push h hleads ih =>
      cases k with
      | zero => exact .push h hleads
      | succ k => exact ih (Nat.lt_of_succ_lt_succ hk)

/-- A stack with the accepting state on top has one frame above the bottom. -/
theorem at_exit {s : Symbol} {exit : Nat} (hgate : m.Gated s exit) (h : Climbs m stack)
    (htop : (stack.head?.map Frame.state).getD 0 = (exit : Int)) :
    stack.reverse.map Frame.state = [0, (exit : Int)] ∧
      stack.reverse.map Frame.symbol = [Symbol.endMarker, s] := by
  cases h with
  | bottom =>
      have hzero : (0 : Int) = exit := htop
      exact absurd (by omega) hgate.exit_ne_zero
  | @push f below _ hbelow hleads =>
      change f.state = exit at htop
      obtain ⟨n, j, hn, hj, hgoto⟩ := hleads
      obtain rfl : j = exit := by omega
      obtain ⟨rfl, hsymbol⟩ := hgate.source_eq hgoto
      cases hbelow with
      | bottom =>
          rw [← hsymbol, ← htop]
          exact ⟨rfl, rfl⟩
      | push _ hleads' =>
          -- no transition leads to the state below
          obtain ⟨_, l, _, hl, hgoto'⟩ := hleads'
          obtain rfl : l = 0 := by omega
          exact absurd hgoto' hgate.goto?_ne_zero

end Climbs

/-! ## Rounds and runs -/

/-- A step that is no acceptance, or shows the accepting configuration. -/
def Step.AtExit (s : Symbol) (exit : Nat) (st : Step) : Prop :=
  st.kind = .accept → st.states = [0, (exit : Int)] ∧ st.symbols = [Symbol.endMarker, s]

/-- What goes on still follows the transitions, and what accepts is at the exit. -/
def Turn.Climbs (m : Automaton) (s : Symbol) (exit : Nat) : Turn → Prop
  | .goesOn steps next => (∀ st ∈ steps, st.AtExit s exit) ∧ Simulator.Climbs m next.stack
  | .ends steps _ _ => ∀ st ∈ steps, st.AtExit s exit

section Rounds

variable {g : Grammar} {t : Table} {m : Automaton} {s : Symbol} {exit n : Nat}
  {c d : Configuration} {steps : List Step}

/-- A step that does not accept is not asked for its place. -/
theorem atExit_record (c : Configuration) {move : Move} (pending : Option Node)
    (hmove : move.kind ≠ .accept) : (c.record move pending).AtExit s exit :=
  fun hkind => absurd hkind hmove

/-- A round that stops without accepting goes nowhere. -/
theorem stop_climbs (c : Configuration) {move : Move} (hmove : move.kind ≠ .accept)
    (accepted : Bool) : (c.stop move accepted).Climbs m s exit :=
  List.forall_mem_singleton.mpr (atExit_record c none hmove)

/-- A shift follows a transition, so the stack climbs further. -/
theorem shift_climbs (h : Climbs m c.stack) {target : Int}
    (hleads : m.Leads c.state c.lookahead.symbol target) : (shift c target).Climbs m s exit :=
  ⟨List.forall_mem_singleton.mpr (atExit_record _ none (by rintro ⟨⟩)), h.cons hleads⟩

/-- A goto follows a transition, as the table has only these. -/
theorem goTo_climbs (htable : t.Backed m) (h : Climbs m c.stack) (r : Production) (node : Node) :
    (goTo t c r node).Climbs m s exit := by
  have hreduced : (c.record (.reduce r) (some node)).AtExit s exit :=
    atExit_record c _ (by rintro ⟨⟩)
  rw [goTo]
  dsimp only
  cases hgoto : t.goto? c.tick.state r.lhs with
  | none =>
      exact List.forall_mem_cons.mpr
        ⟨hreduced, List.forall_mem_singleton.mpr (atExit_record _ _ (by rintro ⟨⟩))⟩
  | some target =>
      obtain ⟨k, hk, hleads⟩ := htable.goto _ _ _ hgoto
      rw [← hk] at hleads
      exact ⟨List.forall_mem_cons.mpr
        ⟨hreduced, List.forall_mem_singleton.mpr (atExit_record _ none (by rintro ⟨⟩))⟩,
        h.cons hleads⟩

/-- A reduction takes frames off and follows a transition. -/
theorem reduce_climbs (htable : t.Backed m) (h : Climbs m c.stack) (r : Production) :
    (reduce t c r).Climbs m s exit := by
  rw [reduce]
  by_cases hdeep : c.stack.length ≤ r.length
  · rw [if_pos hdeep]
    exact stop_climbs c (by rintro ⟨⟩) false
  · rw [if_neg hdeep]
    dsimp only
    cases ((handle c r).2.interior r.lhs r.id (handle c r).1).1 with
    | none => exact stop_climbs _ (by rintro ⟨⟩) false
    | some node => exact goTo_climbs htable (h.drop (by omega)) r node

/-- What a round preserves, of a table that is backed by the automaton. -/
theorem turn_climbs (hgate : m.Gated s exit) (htable : t.Backed m) (h : Climbs m c.stack) :
    (turn g t c).Climbs m s exit := by
  refine turn_cases (P := fun u => u.Climbs m s exit) ?_ ?_ ?_ ?_ ?_
  · intro _
    exact stop_climbs c (by rintro ⟨⟩) false
  · -- the state on top accepts, so it is the exit
    intro haction
    obtain ⟨k, hk, st, hst, haccepts⟩ := htable.action _ _ _ haction
    rw [(hgate.accepts_iff k st hst).mp haccepts] at hk
    exact List.forall_mem_singleton.mpr fun _ => h.at_exit hgate hk
  · intro target haction
    obtain ⟨k, hk, hjustified⟩ := htable.action _ _ _ haction
    refine shift_climbs h ?_
    rw [hk]
    exact hjustified
  · intro p _ _
    exact stop_climbs c (by rintro ⟨⟩) false
  · intro p r _ _
    exact reduce_climbs htable h r

/-- So the stack climbs through the whole run, by induction on its rounds. -/
theorem Runs.climbs (hgate : m.Gated s exit) (htable : t.Backed m) (hruns : Runs g t n c steps d)
    (h : Climbs m c.stack) : (∀ st ∈ steps, st.AtExit s exit) ∧ Climbs m d.stack := by
  induction hruns with
  | refl c => exact ⟨List.forall_mem_nil _, h⟩
  | step hturn _ ih =>
      have hround := turn_climbs (g := g) hgate htable h
      rw [hturn] at hround
      obtain ⟨hlater, hlast⟩ := ih hround.2
      exact ⟨List.forall_mem_append.mpr ⟨hround.1, hlater⟩, hlast⟩

/-- In a play from the bottom, every acceptance is at the exit. -/
theorem play_atExit (hgate : m.Gated s exit) (htable : t.Backed m) (h : Climbs m c.stack)
    (limit fuel : Nat) : ∀ st ∈ (play g t limit fuel c []).steps, st.AtExit s exit := by
  rcases play_cases (g := g) (t := t) limit fuel c [] with
    ⟨steps, d, hruns, hplay⟩ | ⟨n, steps, d, last, accepted, final, -, hruns, hends, hplay⟩
  · rw [hplay]
    exact List.forall_mem_append.mpr ⟨(hruns.climbs hgate htable h).1,
      List.forall_mem_singleton.mpr (atExit_record d none (by rintro ⟨⟩))⟩
  · obtain ⟨hsteps, hd⟩ := hruns.climbs hgate htable h
    have hround := turn_climbs (g := g) hgate htable hd
    rw [hends] at hround
    rw [hplay]
    exact List.forall_mem_append.mpr ⟨hsteps, hround⟩

end Rounds

end Simulator

/-! ## Parses -/

open Simulator

namespace Compilation

variable {g : Grammar} {c : Compilation}

/-- A compilation is made of the analysis of its grammar. -/
theorem exists_analysis (hc : compile g = .ok c) :
    ∃ a, Analysis.make g = .ok a ∧ c = ofAnalysis a := by
  rw [compile] at hc
  cases ha : Analysis.make g with
  | error e =>
      rw [ha] at hc
      cases hc
  | ok a =>
      rw [ha] at hc
      exact ⟨a, rfl, (Except.ok.inj hc).symm⟩

/-- A parse is a play with the grammar of the analysis, however often that was
    augmented. -/
theorem parse_of_make {a : Analysis} (ha : Analysis.make g = .ok a) (limit : Nat)
    (tokens : List Token) : (ofAnalysis a).parse g limit tokens
      = play a.grammar (ofAnalysis a).table limit limit (Configuration.start tokens none) [] := by
  rw [parse, Simulator.make, Option.map_some, Analysis.ensureAugmented_of_make ha]
  rfl

/-- **There is one accepting configuration.**  For every grammar that can be compiled,
    raw or augmented any number of times, one state of the automaton accepts.  One
    transition leads to it, from state 0 on the start symbol that the grammar had before
    it was last augmented, and none leads to state 0.  When a fresh parse accepts, the
    stack has this state above state 0 and this symbol above the end marker.  The bounds
    are those of the numbers that hold dots and cells. -/
theorem acceptance_unique (hg : g.Made) (hc : compile g = .ok c)
    (hbodies : ∀ r ∈ g.rules, r.body.length < 9223372036854775808) :
    ∃ exit, c.automaton.Gated c.grammar.baseStart exit ∧
      (c.grammar.size ≤ 2147483646 → c.automaton.size ≤ 2147483648 →
        ∀ (limit : Nat) (tokens : List Token), ∀ st ∈ (c.parse g limit tokens).steps,
          st.kind = .accept → st.states = [0, (exit : Int)] ∧
            st.symbols = [Symbol.endMarker, c.grammar.baseStart]) := by
  obtain ⟨a, ha, rfl⟩ := exists_analysis hc
  have hplanted := hg.planted_analyzed ha
  have hcharted := hg.charted_analyzed ha hbodies
  obtain ⟨exit, hgate⟩ := hcharted.exists_gated hplanted
  refine ⟨exit, hgate, ?_⟩
  intro hrules hstates limit tokens
  rw [parse_of_make ha]
  exact play_atExit hgate (Table.backed_build hcharted hplanted hrules hstates) .bottom limit limit

end Compilation

/-- The grammar with a shared symbol, augmented twice. -/
def overlapCompilation : Compilation :=
  Compilation.ofAnalysis (Analysis.ofGrammar overlapGrammar.augmented.augmented)

/-- It accepts the shared symbol, taken as a terminal, and a letter behind it, with the
    start symbol of the first augmentation on the stack. -/
theorem acceptance_unique_overlap :
    ∃ exit, overlapCompilation.automaton.Gated "S'" exit ∧
      ∃ st ∈ (overlapCompilation.parse overlapGrammar.augmented.augmented 7 (spell ["A", "a"])).steps,
        st.kind = .accept ∧ st.states = [0, (exit : Int)] ∧ st.symbols = ["$", "S'"] := by
  have hassembled : Grammar.assemble "overlap" "S" ["a", "A"] ["S", "A"]
      [some { id := 0, lhs := "S", body := ["A", "a"] }, some { id := 1, lhs := "A", body := [] }]
        = .ok overlapGrammar := rfl
  have hstep : ((overlapCompilation.parse overlapGrammar.augmented.augmented 7
      (spell ["A", "a"])).steps[6]?.map Step.kind) = some .accept := by decide +kernel
  obtain ⟨st, hst, hkind⟩ := Option.map_eq_some_iff.mp hstep
  obtain ⟨exit, hgate, hstack⟩ := Compilation.acceptance_unique (c := overlapCompilation)
    (.augmented (.augmented (.assembled hassembled) rfl) rfl) rfl (by decide)
  have hmem := List.mem_of_getElem? hst
  exact ⟨exit, hgate, st, hmem, hkind,
    hstack (by decide) (by decide +kernel) 7 (spell ["A", "a"]) st hmem hkind⟩

end ShiftReduce
