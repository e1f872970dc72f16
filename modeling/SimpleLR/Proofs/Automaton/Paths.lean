import SimpleLR.Proofs.Automaton.ViablePrefix

/-!
# Paths through the states

The symbols of a string lead from state 0 along the transitions, to one state or to none. The items of
that state are what goto makes of the first item set, one symbol after another. So the states are the
nonempty item sets that repeated goto makes of the first one, and each of them is there once.
-/
namespace SimpleLR

/-- The state that the symbols of a string lead to from state 0. -/
def pathEnd? (states : Array State) (γ : List Nat) : Option Nat :=
  γ.foldlM (fun s X => states[s]?.bind (·.transition? X)) 0

theorem pathEnd?_concat (states : Array State) (γ : List Nat) (X : Nat) :
    pathEnd? states (γ ++ [X]) =
      (pathEnd? states γ).bind fun s => states[s]?.bind (·.transition? X) := by
  simp [pathEnd?, List.foldlM_append]

namespace Grammar

/-- What the first item set becomes by goto on the symbols of a string. -/
def itemsAfter (g : Grammar) (γ : List Nat) : ItemSet :=
  γ.foldl (goto g) (closure g [Item.initial g.startProduction])

theorem itemsAfter_concat (g : Grammar) (γ : List Nat) (X : Nat) :
    g.itemsAfter (γ ++ [X]) = goto g (g.itemsAfter γ) X := by
  simp [itemsAfter]

/-- The states are the canonical collection of a grammar. -/
structure IsCollection (g : Grammar) (states : Array State) : Prop where
  first : ∃ st, states[0]? = some st ∧ st.items = closure g [Item.initial g.startProduction]
  distinct : ∀ {s t : Nat} {st st' : State}, states[s]? = some st → states[t]? = some st' →
    st.items = st'.items → s = t
  nonempty : ∀ st ∈ states, st.items.isEmpty = false
  /-- A state has an entry for each symbol. -/
  width : ∀ st ∈ states, st.targets.size = g.symbolCount
  /-- An entry is the number of the goto's state, and there is none where the goto is empty. -/
  leads : ∀ st ∈ states, ∀ X t : Nat, st.targets[X]? = some (some t) ↔
    (goto g st.items X).isEmpty = false ∧
      ∃ st', states[t]? = some st' ∧ st'.items = goto g st.items X
  reached : ∀ s < states.size, ∃ γ, pathEnd? states γ = some s
  /-- An item has its dot within a production of the grammar, and carries its left side. -/
  belongsTo : ∀ st ∈ states, ∀ i ∈ st.items,
    ∃ p, g.production? i.production = some p ∧ i.dot ≤ p.rhs.length ∧ i.lhs = p.lhs
  /-- The item sets are those that repeated goto makes of the first one. -/
  all : ∀ set : ItemSet, (∃ st ∈ states, st.items = set) ↔
    set.isEmpty = false ∧ ∃ γ, set = g.itemsAfter γ

variable {g : Grammar} {γ : List Nat} {s : Nat} {st : State}

/-- The end of a path is the top of the stack that the string leads to. -/
theorem pathEnd?_eq_some :
    pathEnd? g.states γ = some s ↔ ∃ below, g.Spells (s :: below) γ.reverse := by
  induction γ using List.reverseRecOn generalizing s with
  | nil =>
    constructor
    · intro h
      obtain rfl : 0 = s := Option.some.inj h
      exact ⟨[], .bottom⟩
    · rintro ⟨below, h⟩
      cases h
      rfl
  | append_singleton γ X ih =>
    simp only [pathEnd?_concat, Option.bind_eq_some_iff, List.reverse_concat]
    constructor
    · rintro ⟨r, hr, st, hst, ht⟩
      obtain ⟨below, h⟩ := ih.mp hr
      exact ⟨r :: below, h.push hst ht⟩
    · rintro ⟨below, h⟩
      cases h with
      | push h hst ht => exact ⟨_, ih.mpr ⟨_, h⟩, _, hst, ht⟩

/-- Every state is the end of a path. -/
theorem exists_path (hs : g.states[s]? = some st) : ∃ γ, pathEnd? g.states γ = some s := by
  obtain ⟨below, γ, h⟩ := exists_spells hs
  exact ⟨γ.reverse, pathEnd?_eq_some.mpr ⟨below, by simpa using h⟩⟩

theorem items_pathEnd? (h : pathEnd? g.states γ = some s) (hs : g.states[s]? = some st) :
    st.items = g.itemsAfter γ := by
  induction γ using List.reverseRecOn generalizing s st with
  | nil =>
    obtain rfl : 0 = s := Option.some.inj h
    exact items_zero hs
  | append_singleton γ X ih =>
    simp only [pathEnd?_concat, Option.bind_eq_some_iff] at h
    obtain ⟨r, hr, st', hst', ht⟩ := h
    rw [items_target hst' ht hs, ih hr hst', itemsAfter_concat]

/-- A path goes on as long as goto leaves any items. -/
theorem exists_pathEnd? (h : (g.itemsAfter γ).isEmpty = false) :
    ∃ s st, pathEnd? g.states γ = some s ∧ g.states[s]? = some st := by
  induction γ using List.reverseRecOn with
  | nil =>
    obtain ⟨st, hst, -⟩ := g.states_zero
    exact ⟨0, st, rfl, hst⟩
  | append_singleton γ X ih =>
    rw [itemsAfter_concat, goto_isEmpty_eq_false] at h
    obtain ⟨i, hi, hnext⟩ := h
    obtain ⟨r, st, hr, hst⟩ := ih (OrdSet.isEmpty_eq_false_iff.mpr ⟨i, hi⟩)
    rw [← items_pathEnd? hr hst] at hi
    obtain ⟨t, ht⟩ := states_transition hst hi hnext
    obtain ⟨st', hst', -⟩ := states_target hst ht
    refine ⟨t, st', ?_, hst'⟩
    rw [pathEnd?_concat, hr, Option.bind_some, hst, Option.bind_some, ht]

/-- A state goes on to the state of its goto, wherever that is not empty. -/
theorem transition?_eq_some_iff (hs : g.states[s]? = some st) {X t : Nat} :
    st.transition? X = some t ↔ (goto g st.items X).isEmpty = false ∧
      ∃ st', g.states[t]? = some st' ∧ st'.items = goto g st.items X := by
  rw [goto_isEmpty_eq_false]
  constructor
  · intro ht
    obtain ⟨st', hst', hitems, hnext⟩ := states_target hs ht
    exact ⟨hnext, st', hst', hitems⟩
  · rintro ⟨⟨i, hi, hnext⟩, st', hst', hitems⟩
    obtain ⟨t', ht'⟩ := states_transition hs hi hnext
    obtain ⟨st'', hst'', hitems', -⟩ := states_target hs ht'
    rwa [states_inj hst' hst'' (hitems.trans hitems'.symm)]

theorem items_eq_iff {set : ItemSet} :
    (∃ st ∈ g.states, st.items = set) ↔ set.isEmpty = false ∧ ∃ γ, set = g.itemsAfter γ := by
  constructor
  · rintro ⟨st, hst, rfl⟩
    obtain ⟨s, hs⟩ := Array.mem_iff_getElem?.mp hst
    obtain ⟨γ, hγ⟩ := exists_path hs
    exact ⟨OrdSet.isEmpty_eq_false_iff.mpr (states_nonempty hs), γ, items_pathEnd? hγ hs⟩
  · rintro ⟨h, γ, rfl⟩
    obtain ⟨s, st, hγ, hs⟩ := exists_pathEnd? h
    exact ⟨st, Array.mem_of_getElem? hs, items_pathEnd? hγ hs⟩

/-- The states of a grammar are its canonical collection. -/
theorem states_isCollection (g : Grammar) : g.IsCollection g.states where
  first := g.states_zero
  distinct hs ht h := states_inj hs ht h
  nonempty st hst := by
    obtain ⟨s, hs⟩ := Array.mem_iff_getElem?.mp hst
    exact OrdSet.isEmpty_eq_false_iff.mpr (states_nonempty hs)
  width st hst := by
    obtain ⟨s, hs⟩ := Array.mem_iff_getElem?.mp hst
    exact states_targets_size hs
  leads st hst X t := by
    obtain ⟨s, hs⟩ := Array.mem_iff_getElem?.mp hst
    rw [← State.transition?_eq_some, transition?_eq_some_iff hs]
  reached s hs := exists_path (Array.getElem?_eq_getElem hs)
  belongsTo st hst i hi := by
    obtain ⟨s, hs⟩ := Array.mem_iff_getElem?.mp hst
    obtain ⟨p, hp, d, hd, rfl⟩ := states_belongsTo hs hi
    exact ⟨p, production?_id hp, hd, rfl⟩
  all _ := items_eq_iff

end Grammar

end SimpleLR
