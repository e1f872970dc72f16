import SimpleLR.Proofs.Automaton.Exploration

/-!
# The states of a grammar

Each state holds the items that its symbol makes of the state before it, and goes on with exactly the
symbols that stand after a dot. Every state beyond the first is entered from one with a smaller number,
and no two states hold the same items.
-/
namespace SimpleLR

open Exploration

theorem State.transition?_eq_some {st : State} {X t : Nat} :
    st.transition? X = some t ↔ st.targets[X]? = some (some t) := by
  simp [State.transition?, Option.join_eq_some_iff]

namespace Grammar

variable {g : Grammar} {s t : Nat} {st : State}

theorem states_eq_some :
    g.states[s]? = some st ↔
      (complete g).found[s]? = some st.items ∧ (complete g).rows[s]? = some st.targets := by
  have hstates : g.states = Array.zipWith State.mk (complete g).found (complete g).rows := rfl
  rw [hstates, Array.getElem?_zipWith]
  cases hf : (complete g).found[s]? with
  | none => simp
  | some set =>
    cases hr : (complete g).rows[s]? with
    | none => simp
    | some row =>
      cases st
      simp

/-- The row of a state has an entry for each symbol. -/
theorem states_row (hs : g.states[s]? = some st) :
    List.Forall₂ ((complete g).Leads g (moves g st.items)) (List.range g.symbolCount)
      st.targets.toList := by
  obtain ⟨hfound, hrow⟩ := states_eq_some.mp hs
  obtain ⟨set, hset, hleads⟩ := (sound_complete g).tried s _ hrow
  rw [hfound] at hset
  rwa [← Option.some.inj hset] at hleads

theorem states_targets_size (hs : g.states[s]? = some st) : st.targets.size = g.symbolCount := by
  simpa using (states_row hs).length_eq.symm

theorem states_leads (hs : g.states[s]? = some st) {X : Nat} {entry : Option Nat}
    (h : st.targets[X]? = some entry) : (complete g).Leads g (moves g st.items) X entry := by
  obtain ⟨hX, rfl⟩ := Array.getElem?_eq_some_iff.mp h
  have hlt : X < g.symbolCount := states_targets_size hs ▸ hX
  simpa using (states_row hs).get (i := X) (by simpa using hlt) (by simpa using hX)

theorem states_found {set : ItemSet} (h : (complete g).found[t]? = some set) :
    ∃ st, g.states[t]? = some st ∧ st.items = set := by
  have hlt : t < (complete g).rows.size := by
    rw [← found_size_complete]
    exact (Array.getElem?_eq_some_iff.mp h).1
  exact ⟨⟨set, (complete g).rows[t]⟩, states_eq_some.mpr ⟨h, Array.getElem?_eq_getElem hlt⟩, rfl⟩

/-- State 0 is the closure of the first item. -/
theorem states_zero : ∃ st, g.states[0]? = some st ∧
    st.items = closure g [g.startProduction.itemAt 0] :=
  states_found (sound_complete g).first

theorem items_zero (hs : g.states[0]? = some st) :
    st.items = closure g [g.startProduction.itemAt 0] := by
  obtain ⟨st', hst', hitems⟩ := g.states_zero
  rw [hs] at hst'
  rw [Option.some.inj hst', hitems]

theorem states_belongsTo (hs : g.states[s]? = some st) {i : Item} (hi : i ∈ st.items) :
    i.BelongsTo g :=
  (sound_complete g).belongsTo s _ (states_eq_some.mp hs).1 i hi

/-- A transition leads to the goto of its symbol, which some dot stands before. -/
theorem states_target (hs : g.states[s]? = some st) {X : Nat} (ht : st.transition? X = some t) :
    ∃ st', g.states[t]? = some st' ∧ st'.items = goto g st.items X ∧
      ∃ i ∈ st.items, i.next? g = some X := by
  obtain ⟨hne, hfound⟩ := states_leads hs (State.transition?_eq_some.mp ht)
  obtain ⟨st', hst', hitems⟩ := states_found hfound
  obtain ⟨j, hj⟩ := List.exists_mem_of_ne_nil _ hne
  obtain ⟨i, hi, hnext, -⟩ := mem_movesOn.mp hj
  exact ⟨st', hst', hitems, i, hi, hnext⟩

theorem items_target (hs : g.states[s]? = some st) {X : Nat} (hX : st.transition? X = some t)
    {st' : State} (ht : g.states[t]? = some st') : st'.items = goto g st.items X := by
  obtain ⟨st'', hst'', hitems, -⟩ := states_target hs hX
  rw [ht] at hst''
  rw [Option.some.inj hst'', hitems]

/-- No state goes on with the augmented start symbol. -/
theorem states_augmentedStart (hs : g.states[s]? = some st) :
    st.transition? g.augmentedStart = none := by
  cases ht : st.transition? g.augmentedStart with
  | none => rfl
  | some t =>
    obtain ⟨-, -, -, i, hi, hnext⟩ := states_target hs ht
    obtain ⟨p, hp, d, -, rfl⟩ := states_belongsTo hs hi
    rw [Production.itemAt_next? hp] at hnext
    exact absurd rfl (rhs_lt hp (List.mem_of_getElem? hnext)).2

/-- A state goes on with every symbol that stands after a dot. -/
theorem states_transition (hs : g.states[s]? = some st) {i : Item} (hi : i ∈ st.items) {X : Nat}
    (hX : i.next? g = some X) : ∃ t, st.transition? X = some t := by
  obtain ⟨p, hp, d, -, rfl⟩ := states_belongsTo hs hi
  have hmem : X ∈ p.rhs := by
    rw [Production.itemAt_next? hp] at hX
    exact List.mem_of_getElem? hX
  have hlt : X < st.targets.size := by
    rw [states_targets_size hs]
    exact (rhs_lt hp hmem).1
  have hleads := states_leads hs (Array.getElem?_eq_getElem hlt)
  cases hentry : st.targets[X] with
  | none =>
    rw [hentry] at hleads
    have hadv : (p.itemAt d).advance ∈ movesOn (moves g st.items) X :=
      mem_movesOn.mpr ⟨_, hi, hX, rfl⟩
    rw [show movesOn (moves g st.items) X = [] from hleads] at hadv
    exact absurd hadv List.not_mem_nil
  | some t =>
    use t
    rw [State.transition?_eq_some, Array.getElem?_eq_getElem hlt, hentry]

/-- A state beyond the first is entered from one with a smaller number. -/
theorem states_entered (ht : g.states[t]? = some st) (h0 : t ≠ 0) :
    ∃ s < t, ∃ st' X, g.states[s]? = some st' ∧ st'.transition? X = some t := by
  obtain ⟨s, row, hlt, hrow, hmem⟩ :=
    (sound_complete g).discovered t _ (states_eq_some.mp ht).1 h0
  obtain ⟨set, hset, -⟩ := (sound_complete g).tried s row hrow
  obtain ⟨X, hX⟩ := List.mem_iff_getElem?.mp hmem
  have ht : (⟨set, row⟩ : State).transition? X = some t := by
    rw [State.transition?_eq_some, ← hX, Array.getElem?_toList]
  exact ⟨s, hlt, ⟨set, row⟩, X, states_eq_some.mpr ⟨hset, hrow⟩, ht⟩

/-- No state is empty. -/
theorem states_nonempty (hs : g.states[s]? = some st) : ∃ i, i ∈ st.items := by
  by_cases h0 : s = 0
  · subst h0
    rw [items_zero hs]
    exact ⟨_, closure_given List.mem_cons_self⟩
  · obtain ⟨r, -, st', X, hr, ht⟩ := states_entered hs h0
    obtain ⟨-, -, -, i, hi, hnext⟩ := states_target hr ht
    rw [items_target hr ht hs]
    exact ⟨_, closure_given (mem_movesOn.mpr ⟨i, hi, hnext, rfl⟩)⟩

/-- The items of a state are the closure of some of them. -/
theorem states_closure (hs : g.states[s]? = some st) : ∃ kernel, st.items = closure g kernel := by
  by_cases h0 : s = 0
  · subst h0
    exact ⟨_, items_zero hs⟩
  · obtain ⟨r, -, st', X, hr, ht⟩ := states_entered hs h0
    exact ⟨_, items_target hr ht hs⟩

/-- A state holds the initial items that its dots call for. -/
theorem states_predicted (hs : g.states[s]? = some st) {p q : Production} {d : Nat}
    (hp : p ∈ g.productions) (hq : q ∈ g.productions) (hi : p.itemAt d ∈ st.items)
    (hd : p.rhs[d]? = some q.lhs) : q.itemAt 0 ∈ st.items := by
  obtain ⟨kernel, hitems⟩ := states_closure hs
  rw [hitems] at hi ⊢
  exact closure_predicted hp hq hi hd

theorem states_inj {st' : State} (hs : g.states[s]? = some st) (ht : g.states[t]? = some st')
    (h : st.items = st'.items) : s = t := by
  apply (sound_complete g).found_inj (states_eq_some.mp hs).1
  rw [h]
  exact (states_eq_some.mp ht).1

end Grammar

end SimpleLR
