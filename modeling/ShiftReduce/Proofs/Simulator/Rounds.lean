import Mathlib.Data.List.Forall2
import ShiftReduce.Simulator.Run

/-! # Rounds — counted runs, and runs that cannot be told apart yet

    `Runs g t n c steps d` says that from configuration `c` the parser plays
    `n` rounds, none of which ends the run, records `steps` and comes to `d`.
    A play is such a run up to the limit, or such a run followed by a round
    that ends it.  Since a round is a function, two runs from one configuration
    go through the same configurations.  What every round has is shown of the five
    things that a round can do (`turn_cases`).

    A round reads only the first token of the input.  So runs on inputs with a
    common beginning agree for as long as the next token is in it, step by
    step. -/

namespace ShiftReduce

namespace Simulator

/-! ## A round by its action -/

section Actions

variable {g : Grammar} {t : Table} {c : Configuration}

theorem turn_of_none (h : t.action? c.state c.lookahead.symbol = none) :
    turn g t c = c.stop (.syntaxError c.state c.lookahead) false := by
  rw [turn, h]

theorem turn_of_accept (h : t.action? c.state c.lookahead.symbol = some .accept) :
    turn g t c = c.stop .accept true := by
  rw [turn, h]

theorem turn_of_shift {target : Int}
    (h : t.action? c.state c.lookahead.symbol = some (.shift target)) :
    turn g t c = shift c target := by
  rw [turn, h]

theorem turn_of_reduce {p : Int} (h : t.action? c.state c.lookahead.symbol = some (.reduce p))
    {r : Production} (hr : g.rule? p = some r) : turn g t c = reduce t c r := by
  rw [turn, h]
  dsimp only
  rw [hr]

/-- A cell that names a rule the grammar does not have ends the run with a fault; tables
    made from the grammar never get here. -/
theorem turn_of_unknown {p : Int} (h : t.action? c.state c.lookahead.symbol = some (.reduce p))
    (hr : g.rule? p = none) : turn g t c = c.stop (.fault (.unknownProduction p)) false := by
  rw [turn, h]
  dsimp only
  rw [hr]

/-- The five things that a round can do, each with what the cell says then: what holds
    of all of them holds of the round. -/
theorem turn_cases {P : Turn → Prop}
    (error : t.action? c.state c.lookahead.symbol = none →
      P (c.stop (.syntaxError c.state c.lookahead) false))
    (accept : t.action? c.state c.lookahead.symbol = some .accept → P (c.stop .accept true))
    (shift : ∀ target, t.action? c.state c.lookahead.symbol = some (.shift target) →
      P (Simulator.shift c target))
    (unknown : ∀ p, t.action? c.state c.lookahead.symbol = some (.reduce p) →
      g.rule? p = none → P (c.stop (.fault (.unknownProduction p)) false))
    (reduce : ∀ p r, t.action? c.state c.lookahead.symbol = some (.reduce p) →
      g.rule? p = some r → P (Simulator.reduce t c r)) : P (turn g t c) := by
  cases haction : t.action? c.state c.lookahead.symbol with
  | none =>
      rw [turn_of_none haction]
      exact error haction
  | some a =>
      cases a with
      | accept =>
          rw [turn_of_accept haction]
          exact accept haction
      | shift target =>
          rw [turn_of_shift haction]
          exact shift target haction
      | reduce p =>
          cases hrule : g.rule? p with
          | none =>
              rw [turn_of_unknown haction hrule]
              exact unknown p haction hrule
          | some r =>
              rw [turn_of_reduce haction hrule]
              exact reduce p r haction hrule

end Actions

/-! ## Counted runs -/

/-- Some number of rounds that do not end the run, with the steps that they
    record. -/
inductive Runs (g : Grammar) (t : Table) :
    Nat → Configuration → List Step → Configuration → Prop where
  | refl (c : Configuration) : Runs g t 0 c [] c
  | step {n : Nat} {c next d : Configuration} {steps later : List Step}
      (hturn : turn g t c = .goesOn steps next) (h : Runs g t n next later d) :
      Runs g t (n + 1) c (steps ++ later) d

section Rounds

variable {g : Grammar} {t : Table} {c d e : Configuration} {n m : Nat} {steps later : List Step}

theorem Runs.single (hturn : turn g t c = .goesOn steps d) : Runs g t 1 c steps d := by
  have h := Runs.step hturn (.refl d)
  rw [List.append_nil] at h
  exact h

/-- Runs compose, with their steps one after the other. -/
theorem Runs.trans (h : Runs g t n c steps d) (h' : Runs g t m d later e) :
    Runs g t (n + m) c (steps ++ later) e := by
  induction h with
  | refl c =>
      rw [Nat.zero_add]
      exact h'
  | step hturn _ ih =>
      rw [Nat.add_right_comm, List.append_assoc]
      exact .step hturn (ih h')

/-- A play goes through every run from its configuration. -/
theorem play_of_runs (h : Runs g t n c steps d) (limit fuel : Nat) (recorded : List Step) :
    play g t limit (n + fuel) c recorded
      = play g t limit fuel d (steps.reverse ++ recorded) := by
  induction h generalizing recorded with
  | refl c => rw [Nat.zero_add]; rfl
  | step hturn _ ih =>
      rw [Nat.add_right_comm, play, hturn]
      dsimp only
      rw [ih, List.reverse_append, List.append_assoc]

/-- A play with enough rounds comes to the end of a run. -/
theorem play_of_ends (h : Runs g t n c steps d) {last : List Step} {accepted : Bool}
    {final : Configuration} (hend : turn g t d = .ends last accepted final) (limit : Nat)
    {fuel : Nat} (hfuel : n < fuel) :
    play g t limit fuel c [] = { steps := steps ++ last, accepted, forest := final.forest } := by
  obtain ⟨more, rfl⟩ : ∃ more, fuel = n + (more + 1) := ⟨fuel - n - 1, by omega⟩
  rw [play_of_runs h, play, hend]
  simp

/-- A play comes to the limit, or to a round that ends it. -/
theorem play_cases (limit fuel : Nat) (c : Configuration) (recorded : List Step) :
    (∃ steps d, Runs g t fuel c steps d ∧
      play g t limit fuel c recorded
        = { steps := recorded.reverse ++ steps ++ [d.record (.fault (.iterationLimit limit)) none]
            accepted := false
            forest := d.forest }) ∨
    ∃ n steps d later accepted final, n < fuel ∧ Runs g t n c steps d ∧
      turn g t d = .ends later accepted final ∧
      play g t limit fuel c recorded
        = { steps := recorded.reverse ++ steps ++ later, accepted, forest := final.forest } := by
  -- the fuel counts down with the rounds, so running out of it is running into the limit
  induction fuel generalizing c recorded with
  | zero =>
      refine Or.inl ⟨[], c, .refl c, ?_⟩
      rw [play, List.reverse_cons, List.append_nil]
  | succ fuel ih =>
      cases hturn : turn g t c with
      | ends later accepted final =>
          refine Or.inr ⟨0, [], c, later, accepted, final, Nat.succ_pos fuel, .refl c, hturn, ?_⟩
          rw [play, hturn]
          simp
      | goesOn steps next =>
          have hplay : play g t limit (fuel + 1) c recorded
              = play g t limit fuel next (steps.reverse ++ recorded) := by
            rw [play, hturn]
          have hreverse : (steps.reverse ++ recorded).reverse = recorded.reverse ++ steps := by
            simp
          rw [hplay]
          rcases ih next (steps.reverse ++ recorded) with
            ⟨steps', d, hruns, hres⟩ | ⟨n, steps', d, later, accepted, final, hn, hruns, hend, hres⟩
          · rw [hreverse] at hres
            exact Or.inl ⟨steps ++ steps', d, .step hturn hruns, by rw [hres]; simp⟩
          · rw [hreverse] at hres
            exact Or.inr ⟨n + 1, steps ++ steps', d, later, accepted, final, by omega,
              .step hturn hruns, hend, by rw [hres]; simp⟩

/-- Of two runs from one configuration the longer one begins with the shorter
    one. -/
theorem Runs.rest_of_le (h : Runs g t n c steps d) (h' : Runs g t m c later e) (hle : n ≤ m) :
    ∃ rest, Runs g t (m - n) d rest e ∧ later = steps ++ rest := by
  induction h generalizing m later with
  | refl c => exact ⟨later, h', rfl⟩
  | step hturn _ ih =>
      cases h' with
      | refl => omega
      | step hturn' h' =>
          obtain ⟨rfl, rfl⟩ := Turn.goesOn.inj (hturn.symm.trans hturn')
          obtain ⟨rest, hrest, rfl⟩ := ih h' (by omega)
          refine ⟨rest, ?_, (List.append_assoc _ _ _).symm⟩
          rw [Nat.add_sub_add_right]
          exact hrest

/-- No run is longer than one to a round that ends the run. -/
theorem Runs.le_of_ends (h : Runs g t n c steps d) (h' : Runs g t m c later e)
    {last : List Step} {accepted : Bool} {final : Configuration}
    (hend : turn g t e = .ends last accepted final) : n ≤ m := by
  -- otherwise the longer run would go on from the round that ends the other
  refine Nat.le_of_not_lt ?_
  intro hlt
  obtain ⟨rest, hrest, -⟩ := h'.rest_of_le h (Nat.le_of_lt hlt)
  obtain ⟨k, hk⟩ : ∃ k, n - m = k + 1 := ⟨n - m - 1, by omega⟩
  rw [hk] at hrest
  cases hrest with
  | step hturn _ => exact nomatch hend.symm.trans hturn

/-- Two runs to rounds that end them end in the same configuration. -/
theorem Runs.eq_of_ends (h : Runs g t n c steps d) (h' : Runs g t m c later e)
    {last last' : List Step} {accepted accepted' : Bool} {final final' : Configuration}
    (hd : turn g t d = .ends last accepted final)
    (he : turn g t e = .ends last' accepted' final') : d = e := by
  have hnm := Nat.le_antisymm (h.le_of_ends h' he) (h'.le_of_ends h hd)
  subst hnm
  obtain ⟨rest, hrest, -⟩ := h.rest_of_le h' (Nat.le_refl n)
  rw [Nat.sub_self] at hrest
  cases hrest with
  | refl => rfl

/-- If a play ends before the limit, then behind a run from its beginning it is the
    play from the end of the run. -/
theorem play_from (h : Runs g t n c steps d) {limit : Nat}
    (hlimit : (play g t limit limit c []).lastLabel ≠ "iteration limit") :
    (play g t limit limit c []).steps = steps ++ (play g t limit limit d []).steps ∧
      (play g t limit limit c []).accepted = (play g t limit limit d []).accepted := by
  rcases play_cases (g := g) (t := t) limit limit c [] with
    ⟨_, e, -, hres⟩ | ⟨m, _, e, last, accepted, final, hm, hruns, hend, hres⟩
  · rw [hres] at hlimit
    refine absurd ?_ hlimit
    simp [Result.lastLabel, Result.last?, Configuration.record, Move.label, Fault.label]
  · obtain ⟨rest, hrest, rfl⟩ := h.rest_of_le hruns (h.le_of_ends hruns hend)
    have hplay : play g t limit limit d [] = _ := play_of_ends hrest hend limit (by omega)
    rw [hres, hplay]
    refine ⟨?_, rfl⟩
    show [] ++ (steps ++ rest) ++ last = steps ++ (rest ++ last)
    rw [List.nil_append, List.append_assoc]

end Rounds

/-! ## Closed inputs -/

/-- Behind a token that is not the end marker, an input that ends with one goes
    on. -/
theorem Configuration.closed_tail {c : Configuration}
    (h : ∃ e, c.rest.getLast? = some e ∧ e.symbol = Symbol.endMarker)
    (hx : c.lookahead.symbol ≠ Symbol.endMarker) :
    ∃ e, c.rest.tail.getLast? = some e ∧ e.symbol = Symbol.endMarker := by
  obtain ⟨e, he, hend⟩ := h
  refine ⟨e, ?_, hend⟩
  rw [lookahead] at hx
  cases hrest : c.rest with
  | nil =>
      rw [hrest] at he
      exact nomatch he
  | cons a rest =>
      rw [hrest] at he hx
      cases rest with
      | nil =>
          obtain rfl := Option.some.inj he
          exact absurd hend hx
      | cons b rest => exact he

/-! ## Common beginnings -/

/-- A configuration with another input. -/
def Configuration.withInput (c : Configuration) (rest : List Token) (last : Token) :
    Configuration :=
  { c with rest, last }

/-- Steps that differ in the input behind them only. -/
structure Step.Resembles (s s' : Step) : Prop where
  index : s.index = s'.index
  move : s.move = s'.move
  stack : s.stack = s'.stack
  pending : s.pending = s'.pending

/-- What a round does to a configuration and to the same one with another
    input, as long as both have the same next token. -/
inductive Alike (c : Configuration) (rest : List Token) (last : Token) : Turn → Turn → Prop where
  | stays {steps steps' : List Step} {next : Configuration} (h : next.rest = c.rest)
      (hsteps : List.Forall₂ Step.Resembles steps steps') :
      Alike c rest last (.goesOn steps next) (.goesOn steps' (next.withInput rest last))
  | moves {steps steps' : List Step} {next : Configuration} (h : next.rest = c.rest.tail)
      (hsteps : List.Forall₂ Step.Resembles steps steps') :
      Alike c rest last (.goesOn steps next) (.goesOn steps' (next.withInput rest.tail last))
  | ends {steps steps' : List Step} {accepted : Bool} {final final' : Configuration} :
      Alike c rest last (.ends steps accepted final) (.ends steps' accepted final')

section CommonBeginnings

variable {g : Grammar} {t : Table} {c d : Configuration} {n : Nat} {steps : List Step}
  {rest : List Token} {last : Token}

/-- A shift looks no further into the input than the lookahead. -/
theorem shift_alike (hl : (c.withInput rest last).lookahead = c.lookahead) (target : Int) :
    Alike c rest last (shift c target) (shift (c.withInput rest last) target) := by
  rw [shift, shift, hl]
  exact .moves rfl (.cons ⟨rfl, rfl, rfl, rfl⟩ .nil)

theorem goTo_alike (b : Configuration) (hb : b.rest = c.rest) (r : Production) (node : Node) :
    Alike c rest last (goTo t b r node) (goTo t (b.withInput rest last) r node) := by
  have hstate : (b.withInput rest last).tick.state = b.tick.state := rfl
  rw [goTo, goTo]
  dsimp only
  rw [hstate]
  cases t.goto? b.tick.state r.lhs with
  | none => exact .ends
  | some target => exact .stays hb (.cons ⟨rfl, rfl, rfl, rfl⟩ (.cons ⟨rfl, rfl, rfl, rfl⟩ .nil))

/-- A reduction does not look at the input at all beyond the lookahead it records. -/
theorem reduce_alike (hl : (c.withInput rest last).lookahead = c.lookahead) (r : Production) :
    Alike c rest last (reduce t c r) (reduce t (c.withInput rest last) r) := by
  have hhandle : handle (c.withInput rest last) r = handle c r := by
    rw [handle, handle, hl]
    rfl
  rw [reduce, reduce]
  by_cases hlen : c.stack.length ≤ r.length
  · rw [if_pos hlen, if_pos (show (c.withInput rest last).stack.length ≤ r.length from hlen)]
    exact .ends
  · rw [if_neg hlen, if_neg (show ¬ (c.withInput rest last).stack.length ≤ r.length from hlen),
      hhandle]
    dsimp only
    cases ((handle c r).2.interior r.lhs r.id (handle c r).1).1 with
    | none => exact .ends
    | some node =>
        refine goTo_alike _ ?_ r node
        rfl

/-- A round reads the first token of the input only. -/
theorem turn_alike (hl : (c.withInput rest last).lookahead = c.lookahead) :
    Alike c rest last (turn g t c) (turn g t (c.withInput rest last)) := by
  have hsame : t.action? (c.withInput rest last).state (c.withInput rest last).lookahead.symbol
      = t.action? c.state c.lookahead.symbol := by
    rw [hl]
    rfl
  -- the other side reads the same cell, so it does the same
  refine turn_cases (P := fun u => Alike c rest last u _) ?_ ?_ ?_ ?_ ?_
  · intro ha
    rw [turn_of_none (hsame.trans ha)]
    exact .ends
  · intro ha
    rw [turn_of_accept (hsame.trans ha)]
    exact .ends
  · intro target ha
    rw [turn_of_shift (hsame.trans ha)]
    exact shift_alike hl target
  · intro p ha hr
    rw [turn_of_unknown (hsame.trans ha) hr]
    exact .ends
  · intro p r ha hr
    rw [turn_of_reduce (hsame.trans ha) hr]
    exact reduce_alike hl r

/-- A turn that goes on leaves the input alone or takes one token off it. -/
theorem rest_of_goesOn (h : turn g t c = .goesOn steps d) :
    d.rest = c.rest ∨ d.rest = c.rest.tail := by
  have halike : Alike c c.rest c.last (turn g t c) (turn g t (c.withInput c.rest c.last)) :=
    turn_alike rfl
  generalize turn g t (c.withInput c.rest c.last) = other at halike
  rw [h] at halike
  cases halike with
  | stays h => exact Or.inl h
  | moves h => exact Or.inr h

/-- What is left of the input is always an end of it. -/
theorem Runs.rest_suffix (h : Runs g t n c steps d) : d.rest <:+ c.rest := by
  induction h with
  | refl c => exact List.suffix_rfl
  | step hturn _ ih =>
      rcases rest_of_goesOn hturn with h | h
      · rw [h] at ih
        exact ih
      · rw [h] at ih
        exact ih.trans (List.tail_suffix _)

/-- If the next token is in a common beginning of two inputs behind a run, then
    the run takes place on both, with the same moves and stacks. -/
theorem Runs.replay (h : Runs g t n c steps d) :
    ∀ (common common' : List Token) {behind : List Token}, c.rest = common ++ behind →
      d.rest = common' ++ behind → common' ≠ [] → ∀ (behind' : List Token) (last : Token),
      ∃ steps', Runs g t n (c.withInput (common ++ behind') last) steps'
          (d.withInput (common' ++ behind') last) ∧ List.Forall₂ Step.Resembles steps steps' := by
  induction h with
  | refl c =>
      intro common common' behind hc hd hne behind' last
      obtain rfl := List.append_cancel_right (hc.symm.trans hd)
      exact ⟨[], .refl _, .nil⟩
  | @step n c next d steps later hturn hruns ih =>
      intro common common' behind hc hd hne behind' last
      -- some of the common beginning is left at the end, so there is some of it here
      obtain ⟨a, common, rfl⟩ : ∃ a as, common = a :: as := by
        refine List.exists_cons_of_ne_nil ?_
        rintro rfl
        have hlen := (Runs.step hturn hruns).rest_suffix.length_le
        rw [hc, hd, List.nil_append, List.length_append] at hlen
        exact hne (List.length_eq_zero_iff.mp (by omega))
      have hl : (c.withInput (a :: common ++ behind') last).lookahead = c.lookahead := by
        rw [Configuration.lookahead, Configuration.lookahead, hc]
        rfl
      have halike := turn_alike (g := g) (t := t) hl
      rw [hturn] at halike
      generalize hturn' : turn g t (c.withInput (a :: common ++ behind') last) = other at halike
      cases halike with
      | stays h hsteps =>
          obtain ⟨later', hruns', hlater⟩ := ih _ common' (h.trans hc) hd hne behind' last
          exact ⟨_, .step hturn' hruns', List.rel_append hsteps hlater⟩
      | moves h hsteps =>
          rw [hc] at h
          obtain ⟨later', hruns', hlater⟩ := ih common common' h hd hne behind' last
          exact ⟨_, .step hturn' hruns', List.rel_append hsteps hlater⟩

/-- The tokens behind those a run consumes may be exchanged for any others: the run is
    repeated on the new input, as long as the next token is the same. -/
theorem Runs.withInput (h : Runs g t n c steps d) (common common' : List Token)
    {behind : List Token} (hc : c.rest = common ++ behind) (hd : d.rest = common' ++ behind)
    (hne : common' ≠ []) (behind' : List Token) (last : Token) :
    ∃ steps', Runs g t n (c.withInput (common ++ behind') last) steps'
      (d.withInput (common' ++ behind') last) := by
  obtain ⟨steps', hruns', -⟩ := h.replay common common' hc hd hne behind' last
  exact ⟨steps', hruns'⟩

end CommonBeginnings

end Simulator

end ShiftReduce
