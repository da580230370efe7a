import Mathlib.Data.Finset.Powerset
import Mathlib.Data.List.Dedup
import ShiftReduce.Automaton.Basic
import ShiftReduce.Proofs.Item.Closure

/-! # The survey of item sets — every move is found

    The survey visits item sets by number.  Its invariant says that the sets
    found so far are pairwise different, that the items of set number `k` have
    their dots at most at position `k`, and that every row of moves fits the
    sets: a move leads to the set that `ItemSet.move` gives.  The dots stay
    below the greatest word, so that advancing is counting: if not because no
    body is so long, then because there are not so many sets.

    There are no more different sets than sets of items, so the fuel suffices
    and the survey ends with a row for every set. -/

namespace ShiftReduce

namespace ItemSet

/-- For lists without repetition, `same` means to have the same members. -/
theorem same_iff {s t : ItemSet} (hs : s.Nodup) (ht : t.Nodup) :
    same s t = true ↔ ∀ i, i ∈ s ↔ i ∈ t := by
  simp only [same, Bool.and_eq_true, beq_iff_eq, List.all_eq_true, List.contains_iff_mem]
  constructor
  · rintro ⟨hlen, hsub⟩ i
    have hperm : t.Perm s := (ht.subperm hsub).perm_of_length_le (by omega)
    exact hperm.symm.mem_iff
  · intro h
    exact ⟨((List.perm_ext_iff_of_nodup hs ht).mpr h).length_eq, fun i hi => (h i).mpr hi⟩

/-- An item that is moved was expecting the symbol. -/
theorem mem_advanced {g : Grammar} {s : ItemSet} {x : Symbol} (hx : x ≠ "") {i : Item} :
    i ∈ advanced g s x ↔ ∃ j ∈ s, j.next? g = some x ∧ i = j.advance := by
  have hpeek : ∀ j : Item, j.peek g = x ↔ j.next? g = some x := by
    intro j
    rw [Item.peek]
    cases hj : j.next? g with
    | none => simpa using hx.symm
    | some y => simp
  simp only [advanced, List.mem_map, List.mem_filter, beq_iff_eq, hpeek]
  constructor
  · rintro ⟨j, ⟨hj, hnext⟩, rfl⟩
    exact ⟨j, hj, hnext, rfl⟩
  · rintro ⟨j, hj, hnext, rfl⟩
    exact ⟨j, ⟨hj, hnext⟩, rfl⟩

/-- A move leads somewhere if and only if an item expects the symbol. -/
theorem move_ne_nil {g : Grammar} {s : ItemSet} {x : Symbol} (hx : x ≠ "") :
    move g s x ≠ [] ↔ ∃ i ∈ s, i.next? g = some x := by
  rw [move, Ne, closure_eq_nil]
  constructor
  · intro hne
    obtain ⟨j, hj⟩ := List.exists_mem_of_ne_nil _ hne
    obtain ⟨i, hi, hnext, -⟩ := (mem_advanced hx).mp hj
    exact ⟨i, hi, hnext⟩
  · rintro ⟨i, hi, hnext⟩
    exact List.ne_nil_of_mem ((mem_advanced hx).mpr ⟨i, hi, hnext, rfl⟩)

end ItemSet

namespace Item

/-- An item of a rule of the grammar with the dot inside the body, and at most
    at a position. -/
def Known (g : Grammar) (k : Nat) (i : Item) : Prop :=
  ∃ r, g.rule? i.rule = some r ∧ 0 ≤ i.dot ∧ i.dot ≤ r.body.length ∧ i.dot ≤ k

/-- A dot that is at most at one position is at most at every later one. -/
theorem Known.mono {g : Grammar} {k k' : Nat} {i : Item} (hi : i.Known g k) (h : k ≤ k') :
    i.Known g k' := by
  obtain ⟨r, hr, hlow, hlen, hhigh⟩ := hi
  exact ⟨r, hr, hlow, hlen, by omega⟩

/-- An item that reads a symbol has a rule, and a point inside its body. -/
theorem next?_eq_some {g : Grammar} {i : Item} {x : Symbol} (h : i.next? g = some x) :
    ∃ r, g.rule? i.rule = some r ∧ ∃ d : Nat, i.dot = d ∧ r.body[d]? = some x := by
  rw [next?] at h
  split at h
  · rename_i r d hr hd
    exact ⟨r, hr, d, hd, h⟩
  · exact nomatch h

/-- Dots that are inside bodies and at most at position `k` are words, be it
    that `k` is one or that no body is longer. -/
def Bounded (g : Grammar) (k : Nat) : Prop :=
  k < 9223372036854775808 ∨ ∀ r ∈ g.rules, r.body.length < 9223372036854775808

/-- What is bounded up to a position is bounded up to every earlier one. -/
theorem Bounded.anti {g : Grammar} {k j : Nat} (h : Bounded g k) (hj : j ≤ k) : Bounded g j :=
  h.imp (Nat.lt_of_le_of_lt hj) id

/-- Behind a symbol of the body, the dot is one position further. -/
theorem Known.advance {g : Grammar} {k : Nat} {i : Item} (h : i.Known g k)
    (hk : Bounded g (k + 1)) {x : Symbol} (hx : i.next? g = some x) :
    i.advance = ⟨i.rule, i.dot + 1⟩ ∧ i.advance.Known g (k + 1) := by
  obtain ⟨r, hr, hlow, -, hhigh⟩ := h
  obtain ⟨r', hr', d, hd, hbody⟩ := next?_eq_some hx
  obtain rfl : r = r' := Option.some.inj (hr.symm.trans hr')
  obtain ⟨hlt, -⟩ := List.getElem?_eq_some_iff.mp hbody
  have hword : i.dot < 9223372036854775807 := by
    rcases hk with hk | hk
    · omega
    · have := hk r (Grammar.mem_of_rule? hr)
      omega
  have hadvance : i.advance = ⟨i.rule, i.dot + 1⟩ := by
    rw [Item.advance, Word.next_of_fits (by omega) hword]
  refine ⟨hadvance, ?_⟩
  rw [hadvance]
  exact ⟨r, hr, by show 0 ≤ i.dot + 1; omega, by show i.dot + 1 ≤ _; omega,
    by show i.dot + 1 ≤ ((k + 1 : Nat) : Int); omega⟩

/-- A demanded item has its dot in front of the body, so it is known whatever the
    position is. -/
theorem known_of_mem_demands {g : Grammar} (hg : g.Checked) {i j : Item}
    (h : j ∈ i.demands g) (k : Nat) : j.Known g k := by
  obtain ⟨b, -, -, r, hr, -, rfl⟩ := mem_demands.mp h
  exact ⟨r, hg.rule?_id hr, le_refl _, by show (0 : Int) ≤ _; omega, by show (0 : Int) ≤ _; omega⟩

end Item

namespace Automaton

variable {g : Grammar}

/-- A row entry leads from an item set to the set that the move gives. -/
def Fits (g : Grammar) (sets : List ItemSet) (s : ItemSet) (e : Symbol × Nat) : Prop :=
  e.1 ∈ g.symbols ∧ ItemSet.move g s e.1 ≠ [] ∧
    ∃ t, sets[e.2]? = some t ∧ ∀ i, i ∈ t ↔ i ∈ ItemSet.move g s e.1

/-- A transition that fits the sets so far fits more of them as well. -/
theorem Fits.mono {sets sets' : List ItemSet} (hsub : sets <+: sets') {s : ItemSet}
    {e : Symbol × Nat} (h : Fits g sets s e) : Fits g sets' s e := by
  obtain ⟨hx, hne, t, ht, hmem⟩ := h
  obtain ⟨more, rfl⟩ := hsub
  obtain ⟨hlt, -⟩ := List.getElem?_eq_some_iff.mp ht
  exact ⟨hx, hne, t, by rw [List.getElem?_append_left hlt]; exact ht, hmem⟩

/-- Item sets that are pairwise different, with dots bounded by their numbers. -/
structure Orderly (g : Grammar) (sets : List ItemSet) : Prop where
  nodup : ∀ s ∈ sets, s.Nodup
  distinct : sets.Pairwise fun s t => ItemSet.same s t = false
  known : ∀ k s, sets[k]? = some s → Item.Bounded g k → ∀ i ∈ s, i.Known g k

/-- Looking up an item set finds one with the same items, and adds it if it is
    new. -/
theorem locate_spec {sets : List ItemSet} (h : Orderly g sets) {s : ItemSet} (hs : s.Nodup)
    (hknown : Item.Bounded g sets.length → ∀ i ∈ s, i.Known g sets.length) :
    Orderly g (locate sets s).2 ∧ sets <+: (locate sets s).2 ∧
      ∃ t, (locate sets s).2[(locate sets s).1]? = some t ∧ ∀ i, i ∈ t ↔ i ∈ s := by
  rw [locate]
  cases hfind : sets.findIdx? fun t => ItemSet.same t s with
  | some k =>
      -- the number that is found belongs to a set with the same items
      obtain ⟨hlt, hsame, -⟩ := List.findIdx?_eq_some_iff_getElem.mp hfind
      refine ⟨h, List.prefix_rfl, sets[k], List.getElem?_eq_getElem hlt, ?_⟩
      exact (ItemSet.same_iff (h.nodup _ (List.getElem_mem hlt)) hs).mp hsame
  | none =>
      have hnew := List.findIdx?_eq_none_iff.mp hfind
      refine ⟨⟨?_, ?_, ?_⟩, List.prefix_append _ _, s, by simp, fun i => Iff.rfl⟩
      · intro t ht
        rcases List.mem_append.mp ht with ht | ht
        · exact h.nodup t ht
        · rw [List.mem_singleton.mp ht]
          exact hs
      · refine List.pairwise_append.mpr ⟨h.distinct, List.pairwise_singleton _ s, ?_⟩
        intro t ht u hu
        rw [List.mem_singleton.mp hu]
        exact hnew t ht
      · -- the new set is the last one, and its number is the bound for its dots
        intro k t hk hbound
        rcases Nat.lt_or_ge k sets.length with hlt | hge
        · rw [List.getElem?_append_left hlt] at hk
          exact h.known k t hk hbound
        · rw [List.getElem?_append_right hge] at hk
          obtain ⟨hzero, rfl⟩ : k - sets.length = 0 ∧ s = t := by
            rcases Nat.eq_zero_or_pos (k - sets.length) with hz | hpos
            · rw [hz] at hk
              exact ⟨hz, Option.some.inj hk⟩
            · rw [List.getElem?_eq_none (by simp; omega)] at hk
              exact nomatch hk
          obtain rfl : k = sets.length := by omega
          exact hknown hbound

/-- The fold over the symbols: what is known behind the symbols that were
    tried. -/
structure Tried (g : Grammar) (start : List ItemSet) (s : ItemSet) (tried : List Symbol)
    (found : List (Symbol × Nat) × List ItemSet) : Prop where
  orderly : Orderly g found.2
  extends_start : start <+: found.2
  fits : ∀ e ∈ found.1, Fits g found.2 s e
  found_all : ∀ x ∈ tried, ItemSet.move g s x ≠ [] → ∃ t, (x, t) ∈ found.1

/-- A move gives a set without repetition, with dots at most one position further. -/
theorem move_spec (hg : g.Checked) {s : ItemSet} {k : Nat} (hk : Item.Bounded g (k + 1))
    (hs : ∀ i ∈ s, i.Known g k) {x : Symbol} (hx : x ≠ "") :
    (ItemSet.move g s x).Nodup ∧ ∀ i ∈ ItemSet.move g s x, i.Known g (k + 1) := by
  refine ⟨(ItemSet.closure_closed g _).1, ?_⟩
  refine ItemSet.closure_induct ?_ fun i _ j hj => Item.known_of_mem_demands hg hj _
  intro i hi
  obtain ⟨j, hj, hnext, rfl⟩ := (ItemSet.mem_advanced hx).mp hi
  exact ((hs j hj).advance hk hnext).2

/-- One more symbol is tried: its set is found among the known ones, or added. -/
theorem Tried.tryMove (hg : g.Checked) {start : List ItemSet} {s : ItemSet} {j : Nat}
    (hj : start[j]? = some s) {tried : List Symbol}
    {found : List (Symbol × Nat) × List ItemSet} (h : Tried g start s tried found)
    {x : Symbol} (hx : x ∈ g.symbols) (hne : x ≠ "") :
    Tried g start s (tried ++ [x]) (tryMove g s found x) := by
  rw [Automaton.tryMove]
  split
  · rename_i hmove
    refine ⟨h.orderly, h.extends_start, h.fits, ?_⟩
    intro y hy hy'
    rcases List.mem_append.mp hy with hy | hy
    · exact h.found_all y hy hy'
    · rw [List.mem_singleton.mp hy] at hy'
      exact absurd hmove hy'
  · rename_i hmove
    -- the visited set has a smaller number than a set that is added, so a dot may move
    obtain ⟨hjlt, -⟩ := List.getElem?_eq_some_iff.mp hj
    have hlen : j < found.2.length := Nat.lt_of_lt_of_le hjlt h.extends_start.length_le
    have hj' : found.2[j]? = some s := by
      obtain ⟨more, hmore⟩ := h.extends_start
      rw [← hmore, List.getElem?_append_left hjlt]
      exact hj
    obtain ⟨horderly, hbegins, t, ht, hmem⟩ := locate_spec (s := ItemSet.move g s x) h.orderly
      (ItemSet.closure_closed g _).1 (by
        intro hbound i hi
        have hs := h.orderly.known j s hj' (hbound.anti (Nat.le_of_lt hlen))
        exact ((move_spec hg (hbound.anti hlen) hs hne).2 i hi).mono hlen)
    refine ⟨horderly, h.extends_start.trans hbegins, ?_, ?_⟩
    · intro e he
      rcases List.mem_append.mp he with he | he
      · exact (h.fits e he).mono hbegins
      · rw [List.mem_singleton.mp he]
        exact ⟨hx, hmove, t, ht, hmem⟩
    · intro y hy hy'
      rcases List.mem_append.mp hy with hy | hy
      · obtain ⟨t', ht'⟩ := h.found_all y hy hy'
        exact ⟨t', List.mem_append_left _ ht'⟩
      · rw [List.mem_singleton.mp hy]
        exact ⟨_, List.mem_append_right _ List.mem_cons_self⟩

/-- All symbols are tried one after the other. -/
theorem Tried.foldl (hg : g.Checked) {start : List ItemSet} {s : ItemSet} {j : Nat}
    (hj : start[j]? = some s) : ∀ (xs tried : List Symbol)
    (found : List (Symbol × Nat) × List ItemSet), Tried g start s tried found →
      (∀ x ∈ xs, x ∈ g.symbols ∧ x ≠ "") →
        Tried g start s (tried ++ xs) (xs.foldl (Automaton.tryMove g s) found) := by
  intro xs
  induction xs with
  | nil =>
      intro tried found h _
      rw [List.append_nil]
      exact h
  | cons x xs ih =>
      intro tried found h hxs
      obtain ⟨hx, hne⟩ := hxs x List.mem_cons_self
      have hstep := h.tryMove hg hj hx hne
      have hrest := ih _ _ hstep fun y hy => hxs y (List.mem_cons_of_mem _ hy)
      rw [List.append_assoc] at hrest
      exact hrest

/-! ## The whole survey -/

/-- The symbols of a grammar are declared. -/
theorem declared_of_mem_symbols (hg : g.Checked) {x : Symbol} (hx : x ∈ g.symbols) :
    x ∈ g.terminals ∨ x ∈ g.nonterminals := by
  have hmem : x ∈ (g.rules.flatMap fun r => r.lhs :: r.body) ++ g.nonterminals ++ g.terminals :=
    List.mem_eraseDups.mp (List.mem_of_mem_filter hx)
  rcases List.mem_append.mp hmem with hmem | hmem
  · rcases List.mem_append.mp hmem with hmem | hmem
    · obtain ⟨r, hr, hx⟩ := List.mem_flatMap.mp hmem
      rcases List.mem_cons.mp hx with rfl | hx
      · exact Or.inr (hg.lhs_mem r hr)
      · exact hg.body_mem r hr x hx
    · exact Or.inr hmem
  · exact Or.inl hmem

theorem symbols_ne_empty (hg : g.Checked) : ∀ x ∈ g.symbols, x ∈ g.symbols ∧ x ≠ "" :=
  fun _ hx => ⟨hx, (hg.ne_of_mem (declared_of_mem_symbols hg hx)).2.2⟩

/-- Every declared symbol is among the symbols of the grammar. -/
theorem mem_symbols (hg : g.Checked) {x : Symbol}
    (hx : x ∈ g.terminals ∨ x ∈ g.nonterminals) : x ∈ g.symbols := by
  obtain ⟨heps, hend, -⟩ := hg.ne_of_mem hx
  refine List.mem_filter.mpr ⟨List.mem_eraseDups.mpr ?_, by simp [heps, hend]⟩
  rcases hx with hx | hx
  · exact List.mem_append_right _ hx
  · exact List.mem_append_left _ (List.mem_append_right _ hx)

/-- What holds of a survey at all times. -/
structure Survey.Sound (g : Grammar) (v : Survey) : Prop where
  orderly : Orderly g v.sets
  start : v.sets[0]? = some (ItemSet.closure g [Item.start])
  rows_le : v.rows.length ≤ v.sets.length
  fits : ∀ (k : Nat) row s, v.rows[k]? = some row → v.sets[k]? = some s →
    (∀ e ∈ row, Fits g v.sets s e) ∧
      ∀ x ∈ g.symbols, ItemSet.move g s x ≠ [] → ∃ t, (x, t) ∈ row

/-- A visit keeps the survey sound. -/
theorem Survey.Sound.visit (hg : g.Checked) {v : Survey} (h : v.Sound g) {s : ItemSet}
    (hs : v.sets[v.rows.length]? = some s) : (v.visit g g.symbols s).Sound g := by
  have htried : Tried g v.sets s g.symbols (g.symbols.foldl (tryMove g s) ([], v.sets)) :=
    Tried.foldl hg hs g.symbols [] ([], v.sets)
      ⟨h.orderly, List.prefix_rfl, (fun e he => nomatch he), (fun x hx => nomatch hx)⟩
      (symbols_ne_empty hg)
  obtain ⟨hlt, -⟩ := List.getElem?_eq_some_iff.mp hs
  have hlen := htried.extends_start.length_le
  have hget : ∀ (k : Nat) t, k < v.sets.length →
      (v.visit g g.symbols s).sets[k]? = some t → v.sets[k]? = some t := by
    intro k t hk ht
    obtain ⟨more, hmore⟩ := htried.extends_start
    change (g.symbols.foldl (tryMove g s) ([], v.sets)).2[k]? = some t at ht
    rw [← hmore, List.getElem?_append_left hk] at ht
    exact ht
  refine ⟨htried.orderly, ?_, ?_, ?_⟩
  · obtain ⟨more, hmore⟩ := htried.extends_start
    show (g.symbols.foldl (tryMove g s) ([], v.sets)).2[0]? = _
    rw [← hmore, List.getElem?_append_left (by omega)]
    exact h.start
  · show (v.rows ++ [_]).length ≤ (g.symbols.foldl (tryMove g s) ([], v.sets)).2.length
    rw [List.length_append, List.length_singleton]
    omega
  · intro k row t hrow ht
    change (v.rows ++ [(g.symbols.foldl (tryMove g s) ([], v.sets)).1])[k]? = some row at hrow
    -- earlier rows stay true since sets are only added; the last row is the new one
    rcases Nat.lt_or_ge k v.rows.length with hk | hk
    · rw [List.getElem?_append_left hk] at hrow
      obtain ⟨hfits, hall⟩ := h.fits k row t hrow (hget k t (by omega) ht)
      exact ⟨fun e he => (hfits e he).mono htried.extends_start, hall⟩
    · rw [List.getElem?_append_right hk] at hrow
      obtain ⟨hk', -⟩ := List.getElem?_eq_some_iff.mp hrow
      obtain rfl : k = v.rows.length := by simp at hk'; omega
      obtain rfl : s = t := Option.some.inj (hs.symm.trans (hget _ t hlt ht))
      rw [Nat.sub_self] at hrow
      obtain rfl := Option.some.inj hrow
      exact ⟨htried.fits, htried.found_all⟩

/-- The survey ends with a row for every set, or uses up its fuel. -/
theorem Survey.Sound.complete (hg : g.Checked) : ∀ (fuel : Nat) {v : Survey}, v.Sound g →
    (v.complete g g.symbols fuel).Sound g ∧
      ((v.complete g g.symbols fuel).rows.length = (v.complete g g.symbols fuel).sets.length ∨
        (v.complete g g.symbols fuel).rows.length = v.rows.length + fuel) := by
  intro fuel
  induction fuel with
  | zero => intro v h; exact ⟨h, Or.inr rfl⟩
  | succ fuel ih =>
      intro v h
      rw [Survey.complete]
      split
      · rename_i hnone
        refine ⟨h, Or.inl (Nat.le_antisymm h.rows_le ?_)⟩
        exact List.getElem?_eq_none_iff.mp hnone
      · rename_i s hs
        obtain ⟨hsound, hend⟩ := ih (h.visit hg hs)
        refine ⟨hsound, hend.imp id ?_⟩
        intro hlen
        rw [hlen]
        show (v.rows ++ [_]).length + fuel = v.rows.length + (fuel + 1)
        rw [List.length_append, List.length_singleton]
        omega

/-- All items of a grammar. -/
def allItems (g : Grammar) : List Item :=
  g.rules.flatMap fun r => (List.range (r.body.length + 1)).map fun d : Nat => ⟨r.id, d⟩

/-- The number of items is the one that the bound on the survey is made of. -/
theorem length_allItems (g : Grammar) : (allItems g).length = itemCount g := by
  unfold allItems itemCount
  induction g.rules with
  | nil => rfl
  | cons r rules ih => simp [ih]

/-- Every item that can be known is on the list of all items. -/
theorem mem_allItems (hg : g.Checked) {k : Nat} {i : Item} (h : i.Known g k) :
    i ∈ allItems g := by
  obtain ⟨r, hr, hlow, hhigh, -⟩ := h
  refine List.mem_flatMap.mpr ⟨r, Grammar.mem_of_rule? hr, List.mem_map.mpr ⟨i.dot.toNat, ?_, ?_⟩⟩
  · exact List.mem_range.mpr (by omega)
  · rw [hg.id_of_rule? hr, Int.toNat_of_nonneg hlow]

/-- Different sets of items are at most as many as there are sets of items. -/
theorem Orderly.length_le (hg : g.Checked) {sets : List ItemSet} (h : Orderly g sets)
    (hbound : ∀ k < sets.length, Item.Bounded g k) : sets.length ≤ 2 ^ itemCount g := by
  -- sets that differ as lists of items differ as finite sets of items of the grammar
  let families : List (Finset Item) := sets.map List.toFinset
  have hnodup : families.Nodup := by
    refine List.pairwise_map.mpr ?_
    refine List.Pairwise.imp_of_mem ?_ h.distinct
    intro s t hs ht hst heq
    have hsame : ItemSet.same s t = true := by
      refine (ItemSet.same_iff (h.nodup s hs) (h.nodup t ht)).mpr ?_
      intro i
      rw [← List.mem_toFinset, ← List.mem_toFinset, heq]
    rw [hst] at hsame
    exact nomatch hsame
  have hsub : families.toFinset ⊆ (allItems g).toFinset.powerset := by
    intro f hf
    obtain ⟨s, hs, rfl⟩ := List.mem_map.mp (List.mem_toFinset.mp hf)
    refine Finset.mem_powerset.mpr ?_
    intro i hi
    obtain ⟨k, hk⟩ := List.mem_iff_getElem?.mp hs
    obtain ⟨hlt, -⟩ := List.getElem?_eq_some_iff.mp hk
    exact List.mem_toFinset.mpr
      (mem_allItems hg (h.known k s hk (hbound k hlt) i (List.mem_toFinset.mp hi)))
  have hcard := Finset.card_le_card hsub
  rw [List.toFinset_card_of_nodup hnodup, Finset.card_powerset, List.length_map] at hcard
  refine hcard.trans (Nat.pow_le_pow_right (by omega) ?_)
  rw [← length_allItems]
  exact List.toFinset_card_le _

/-- The first few of orderly sets are orderly. -/
theorem Orderly.take {sets : List ItemSet} (h : Orderly g sets) (n : Nat) :
    Orderly g (sets.take n) := by
  refine ⟨fun s hs => h.nodup s (List.mem_of_mem_take hs), h.distinct.sublist (List.take_sublist n _),
    ?_⟩
  intro k s hk
  obtain ⟨hlt, -⟩ := List.getElem?_eq_some_iff.mp hk
  rw [List.length_take] at hlt
  rw [List.getElem?_take_of_lt (by omega)] at hk
  exact h.known k s hk

/-- Before the first visit there is the start set, with no rows. -/
theorem sound_initial (hg : g.Checked) (hroot : (g.rule? 0).isSome = true) :
    Survey.Sound g { sets := [ItemSet.closure g [Item.start]], rows := [] } := by
  refine ⟨⟨?_, List.pairwise_singleton _ _, ?_⟩, rfl, Nat.zero_le _, fun k row s hrow => nomatch hrow⟩
  · intro s hs
    rw [List.mem_singleton.mp hs]
    exact (ItemSet.closure_closed g _).1
  · intro k s hs _
    obtain rfl : ItemSet.closure g [Item.start] = s := by
      cases k with
      | zero => exact Option.some.inj hs
      | succ k => exact nomatch hs
    refine ItemSet.closure_induct ?_ fun i _ j hj => Item.known_of_mem_demands hg hj _
    intro i hi
    obtain ⟨r, hr⟩ := Option.isSome_iff_exists.mp hroot
    rw [List.mem_singleton.mp hi]
    exact ⟨r, hr, le_refl _, by show (0 : Int) ≤ _; omega, by show (0 : Int) ≤ _; omega⟩

/-- The survey is sound, and has a row for every set if its dots are words. -/
theorem survey_sound (hg : g.Checked) (hroot : (g.rule? 0).isSome = true) :
    (survey g).Sound g ∧
      (Item.Bounded g (survey g).rows.length →
        (survey g).rows.length = (survey g).sets.length) := by
  obtain ⟨hsound, hend⟩ := (sound_initial hg hroot).complete hg (Nat.pow 2 (itemCount g))
  refine ⟨hsound, ?_⟩
  intro hbound
  rcases hend with heq | hfuel
  · exact heq
  · -- one set more than rows would be one more than there are sets of items
    by_contra hne
    have hlt : (survey g).rows.length < (survey g).sets.length :=
      Nat.lt_of_le_of_ne hsound.rows_le hne
    have hcount := (hsound.orderly.take ((survey g).rows.length + 1)).length_le hg (by
      intro k hk
      rw [List.length_take] at hk
      exact hbound.anti (by omega))
    rw [List.length_take, Nat.min_eq_left (by exact hlt)] at hcount
    change (survey g).rows.length = 0 + 2 ^ itemCount g at hfuel
    omega

end Automaton

end ShiftReduce
