import SimpleLR.Proofs.Automaton.Discovery

/-!
# Accessing symbols

Each state beyond the first is entered by one symbol, wherever it is entered from. Its items with something
read are those that the goto has moved, so they have read this symbol last. Its other items are called for
by its dots, and the same dots make it go on with the left sides of these items. State 0, which nothing
leads to, has the first item besides.
-/
namespace SimpleLR

/-- The symbol right before the dot. -/
def Item.previous? (g : Grammar) (i : Item) : Option Nat :=
  match i.dot with
  | 0 => none
  | d + 1 => (i.rhs? g).bind (·[d]?)

namespace Grammar

variable (g : Grammar)

/-- A state is entered by a symbol and by no other one, and this is what its items have read last. -/
structure AccessedBy (states : Array State) (t : Nat) (st : State) (X : Nat) : Prop where
  entered : ∃ s, target? states s X = some t
  unique : ∀ s Y, target? states s Y = some t → Y = X
  read : ∀ i ∈ st.items, 1 ≤ i.dot → i.previous? g = some X
  kernel : ∃ i ∈ st.items, 1 ≤ i.dot

/-- An item of a state is the initial item of a nonterminal that a dot of the state stands before, and the
state goes on with this nonterminal. -/
structure CalledIn (st : State) (i : Item) : Prop where
  initial : ∃ p ∈ g.productions, i = Item.initial p
  nonterminal : g.isNonterminal i.lhs = true
  dot : ∃ j ∈ st.items, j.next? g = some i.lhs
  goesOn : ∃ t, st.transition? i.lhs = some t

/-- The states are accessed by one symbol each, but for state 0. -/
structure IsAccessed (states : Array State) : Prop where
  zero : ∃ st, states[0]? = some st ∧ Item.initial g.startProduction ∈ st.items
  first : ∀ s X, target? states s X ≠ some 0
  accessed : ∀ t st, states[t]? = some st → t ≠ 0 → ∃ X, g.AccessedBy states t st X
  called : ∀ t st, states[t]? = some st → ∀ i ∈ st.items, i.dot = 0 →
    t ≠ 0 ∨ i ≠ Item.initial g.startProduction → g.CalledIn st i

end Grammar

variable {g : Grammar}

@[simp] theorem Item.previous?_advance (i : Item) : i.advance.previous? g = i.next? g := rfl

/-- An item of a closure is a given one, or the dot of another item of the closure calls for it. -/
theorem closure_given_or_predicted {items : List Item} {i : Item} (h : i ∈ closure g items) :
    i ∈ items ∨
      ∃ p ∈ g.productions, i = p.itemAt 0 ∧ ∃ j ∈ closure g items, j.next? g = some p.lhs := by
  cases mem_closure.mp h with
  | given h => exact .inl h
  | predicted hj hi =>
    obtain ⟨p, hp, hnext, rfl⟩ := mem_predictions.mp hi
    exact .inr ⟨p, hp, rfl, _, mem_closure.mpr hj, hnext⟩

/-- What an item of a goto has read ends with the symbol of the goto. -/
theorem goto_previous? {set : ItemSet} {X : Nat} {i : Item} (h : i ∈ goto g set X)
    (hdot : 1 ≤ i.dot) : i.previous? g = some X := by
  rcases closure_given_or_predicted h with hmoved | ⟨p, -, rfl, -⟩
  · obtain ⟨j, -, hnext, rfl⟩ := mem_movesOn.mp hmoved
    rw [Item.previous?_advance, hnext]
  · simp at hdot

/-- A goto that is not empty has an item with something read. -/
theorem goto_exists_read {set : ItemSet} {X : Nat} (h : ∃ i ∈ set, i.next? g = some X) :
    ∃ i ∈ goto g set X, 1 ≤ i.dot := by
  obtain ⟨i, hi, hnext⟩ := h
  refine ⟨i.advance, closure_given (mem_movesOn.mpr ⟨i, hi, hnext, rfl⟩), ?_⟩
  simp [Item.advance]

namespace Grammar

variable {s t X : Nat} {st : State}

/-- A state that a symbol leads to is a goto on this symbol. -/
theorem items_of_target? (h : target? g.states s X = some t) (ht : g.states[t]? = some st) :
    ∃ set : ItemSet, st.items = goto g set X ∧ ∃ i ∈ set, i.next? g = some X := by
  obtain ⟨st', hs, hX⟩ := target?_eq_some.mp h
  obtain ⟨-, -, -, hnext⟩ := states_target hs hX
  exact ⟨st'.items, items_target hs hX ht, hnext⟩

theorem accessedBy_of_target? (h : target? g.states s X = some t) (ht : g.states[t]? = some st) :
    g.AccessedBy g.states t st X := by
  obtain ⟨set, hitems, hnext⟩ := items_of_target? h ht
  have hkernel : ∃ i ∈ st.items, 1 ≤ i.dot := by
    rw [hitems]
    exact goto_exists_read hnext
  have hread : ∀ i ∈ st.items, 1 ≤ i.dot → i.previous? g = some X := by
    intro i hi hdot
    rw [hitems] at hi
    exact goto_previous? hi hdot
  refine ⟨⟨s, h⟩, fun r Y hY => ?_, hread, hkernel⟩
  -- An item with something read tells the symbol of any goto that the state is.
  obtain ⟨i, hi, hdot⟩ := hkernel
  obtain ⟨set', hitems', -⟩ := items_of_target? hY ht
  have hlast : i.previous? g = some Y := goto_previous? (hitems' ▸ hi) hdot
  rw [hread i hi hdot] at hlast
  exact (Option.some.inj hlast).symm

/-- The items that a state is the closure of have something read, but for the first item in state 0. -/
theorem states_closure_read (ht : g.states[t]? = some st) : ∃ kernel, st.items = closure g kernel ∧
    ∀ i ∈ kernel, i.dot = 0 → t = 0 ∧ i = Item.initial g.startProduction := by
  by_cases h0 : t = 0
  · subst h0
    exact ⟨_, items_zero ht, fun i hi _ => ⟨rfl, List.mem_singleton.mp hi⟩⟩
  · obtain ⟨r, -, st', X, hr, hX⟩ := states_entered ht h0
    refine ⟨_, items_target hr hX ht, fun i hi hdot => ?_⟩
    obtain ⟨j, -, -, rfl⟩ := mem_movesOn.mp hi
    simp [Item.advance] at hdot

theorem calledIn_of_dot (ht : g.states[t]? = some st) {i : Item} (hi : i ∈ st.items)
    (hdot : i.dot = 0) (h : t ≠ 0 ∨ i ≠ Item.initial g.startProduction) : g.CalledIn st i := by
  obtain ⟨kernel, hitems, hkernel⟩ := states_closure_read ht
  rw [hitems] at hi
  rcases closure_given_or_predicted hi with hgiven | ⟨p, hp, rfl, j, hj, hnext⟩
  · obtain ⟨h0, hfirst⟩ := hkernel i hgiven hdot
    simp [h0, hfirst] at h
  · rw [← hitems] at hj
    exact ⟨⟨p, hp, rfl⟩, isNonterminal_lhs hp, ⟨j, hj, hnext⟩, states_transition ht hj hnext⟩

/-- Every state of a grammar but state 0 has one accessing symbol, which its items have read last; the items
that have read nothing are called for, but for the first item in state 0. -/
theorem states_isAccessed (g : Grammar) : g.IsAccessed g.states where
  zero := by
    obtain ⟨st, hst, hitems⟩ := g.states_zero
    exact ⟨st, hst, hitems ▸ closure_given (List.mem_singleton.mpr rfl)⟩
  first s X h := states_target_ne_zero h rfl
  accessed t st ht h0 := by
    obtain ⟨s, -, st', X, hs, hX⟩ := states_entered ht h0
    exact ⟨X, accessedBy_of_target? (target?_eq_some.mpr ⟨st', hs, hX⟩) ht⟩
  called t st ht i hi hdot h := calledIn_of_dot ht hi hdot h

end Grammar

end SimpleLR
