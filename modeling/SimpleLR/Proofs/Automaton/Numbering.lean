import SimpleLR.Proofs.Automaton.Paths
import Mathlib.Data.Prod.Lex
import Mathlib.Data.Set.Function

/-!
# State numbers

The states are numbered in the order in which a search meets them that takes the states by their numbers
and the symbols by their codes. Nothing but the transitions enters into this, so two collections that
match each other in their transitions, state 0 with state 0, have the same numbers.
-/
namespace SimpleLR

/-- Where a state goes on a symbol. -/
def target? (states : Array State) (s X : Nat) : Option Nat := states[s]?.bind (·.transition? X)

theorem target?_eq_some {states : Array State} {s X t : Nat} :
    target? states s X = some t ↔ ∃ st, states[s]? = some st ∧ st.transition? X = some t :=
  Option.bind_eq_some_iff

/-- A place, a state with a symbol, comes before another one: by the state numbers, then by the symbols. -/
abbrev Before : Nat × Nat → Nat × Nat → Prop := Prod.Lex (· < ·) (· < ·)

theorem Before.le {r Y s X : Nat} (h : Before (r, Y) (s, X)) : r ≤ s := by
  rcases Prod.lex_def.mp h with hlt | ⟨heq, -⟩
  · exact Nat.le_of_lt hlt
  · exact Nat.le_of_eq heq

theorem before_wellFounded : WellFounded Before := WellFounded.prod_lex Nat.lt_wfRel.wf Nat.lt_wfRel.wf

/-- The states are numbered in the order in which they are entered. -/
structure BreadthFirst (states : Array State) : Prop where
  target_lt : ∀ {s X t : Nat}, target? states s X = some t → t < states.size
  entered : ∀ t < states.size, t ≠ 0 → ∃ s < t, ∃ X, target? states s X = some t
  /-- What enters a state comes after something that enters a state with a smaller number. -/
  inOrder : ∀ {s X t u : Nat}, target? states s X = some u → t < u → t ≠ 0 →
    ∃ r Y, Before (r, Y) (s, X) ∧ target? states r Y = some t

theorem target?_of_row {g : Grammar} {s X t : Nat} {row : Array (Option Nat)}
    (hrow : (Exploration.complete g).rows[s]? = some row) (hX : row.toList[X]? = some (some t)) :
    target? g.states s X = some t := by
  obtain ⟨set, hset, -⟩ := (Exploration.sound_complete g).tried s row hrow
  refine target?_eq_some.mpr ⟨⟨set, row⟩, Grammar.states_eq_some.mpr ⟨hset, hrow⟩, ?_⟩
  rw [State.transition?_eq_some, ← hX, Array.getElem?_toList]

theorem Grammar.states_breadthFirst (g : Grammar) : BreadthFirst g.states where
  target_lt := by
    intro s X t ht
    obtain ⟨st, hs, ht⟩ := target?_eq_some.mp ht
    obtain ⟨st', hst', -⟩ := states_target hs ht
    exact (Array.getElem?_eq_some_iff.mp hst').1
  entered := by
    intro t ht h0
    obtain ⟨s, hlt, st, X, hs, hX⟩ := states_entered (Array.getElem?_eq_getElem ht) h0
    exact ⟨s, hlt, X, target?_eq_some.mpr ⟨st, hs, hX⟩⟩
  inOrder := by
    intro s X t u hu ht h0
    obtain ⟨st, hs, hX⟩ := target?_eq_some.mp hu
    have hrow := (states_eq_some.mp hs).2
    rw [State.transition?_eq_some, ← Array.getElem?_toList] at hX
    obtain ⟨hlt, hX⟩ := List.getElem?_eq_some_iff.mp hX
    have hsplit : st.targets.toList = st.targets.toList.take X ++ some u ::
        st.targets.toList.drop (X + 1) := by
      rw [← hX, List.getElem_cons_drop, List.take_append_drop]
    rcases (Exploration.sound_complete g).inOrder s _ _ u _ hrow hsplit t ht h0 with
      hmem | ⟨r, hr, row, hrow', hmem⟩
    · obtain ⟨Y, hY⟩ := List.mem_iff_getElem?.mp hmem
      rw [List.getElem?_take, Option.ite_none_right_eq_some] at hY
      exact ⟨s, Y, Prod.Lex.right s hY.1, target?_of_row hrow hY.2⟩
    · obtain ⟨Y, hY⟩ := List.mem_iff_getElem?.mp hmem
      exact ⟨r, Y, Prod.Lex.left Y X hr, target?_of_row hrow' hY⟩

/-- One collection of states is the other one by another name: the states by `σ` and the symbols by
`code`. -/
structure Matches (states states' : Array State) (code σ : Nat → Nat) : Prop where
  zero : σ 0 = 0
  bijOn : Set.BijOn σ (Set.Iio states.size) (Set.Iio states'.size)
  target : ∀ s < states.size, ∀ X, target? states' (σ s) (code X) = (target? states s X).map σ

/-- If the states below one are fixed and that one is moved up, nothing enters it from below: whatever does
so would come after something else that does so as well. -/
private theorem not_entered {states states' : Array State} {σ : Nat → Nat} {t : Nat}
    (hs : BreadthFirst states) (hs' : BreadthFirst states') (hfixed : ∀ s < t, σ s = s)
    (hcommutes : ∀ s < t, ∀ X, target? states' s X = (target? states s X).map σ) (h0 : t ≠ 0)
    (hlt : t < σ t) : ∀ place : Nat × Nat, place.1 < t → target? states place.1 place.2 ≠ some t := by
  intro place
  induction place using before_wellFounded.induction with
  | _ place ih =>
    obtain ⟨s, X⟩ := place
    intro hst hX
    have hX' := hcommutes s hst X
    rw [hX] at hX'
    -- `t` itself is entered before its image in the other collection, by an image of some `u` from here.
    obtain ⟨r, Y, hbefore, hY⟩ := hs'.inOrder hX' hlt h0
    have hrt : r < t := Nat.lt_of_le_of_lt hbefore.le hst
    have hY' := hcommutes r hrt Y
    rw [hY] at hY'
    obtain ⟨u, hu, hσ⟩ := Option.map_eq_some_iff.mp hY'.symm
    have htu : t < u := by
      refine Nat.lt_of_le_of_ne (Nat.not_lt.mp fun hgt => ?_) fun heq => ?_
      · exact Nat.ne_of_lt hgt ((hfixed u hgt).symm.trans hσ)
      · exact Nat.ne_of_gt hlt (heq ▸ hσ)
    obtain ⟨q, Z, hbefore', hZ⟩ := hs.inOrder hu htu h0
    have hqt : q < t := Nat.lt_of_le_of_lt hbefore'.le hrt
    exact ih (q, Z) (hbefore'.trans hbefore) hqt hZ

/-- Collections that match by the same symbols have the same numbers. -/
theorem Matches.eq_self {states states' : Array State} {σ : Nat → Nat}
    (h : Matches states states' id σ) (hs : BreadthFirst states) (hs' : BreadthFirst states') :
    ∀ t < states.size, σ t = t := by
  intro t
  induction t using Nat.strongRecOn with
  | ind t ih =>
    intro ht
    by_contra hne
    have hfixed : ∀ s < t, σ s = s := fun s hs => ih s hs (Nat.lt_trans hs ht)
    have hcommutes : ∀ s < t, ∀ X, target? states' s X = (target? states s X).map σ := by
      intro s hs X
      have htarget := h.target s (Nat.lt_trans hs ht) X
      rwa [hfixed s hs] at htarget
    have h0 : t ≠ 0 := by
      rintro rfl
      exact hne h.zero
    have hlt : t < σ t := by
      refine Nat.lt_of_le_of_ne (Nat.not_lt.mp fun hgt => hne ?_) (Ne.symm hne)
      exact h.bijOn.injOn (Nat.lt_trans hgt ht) ht (hfixed _ hgt)
    obtain ⟨s, hst, X, hX⟩ := hs.entered t ht h0
    exact not_entered hs hs' hfixed hcommutes h0 hlt (s, X) hst hX

/-- So they are alike in their transitions as they stand. -/
theorem Matches.alike {states states' : Array State} {σ : Nat → Nat}
    (h : Matches states states' id σ) (hs : BreadthFirst states) (hs' : BreadthFirst states') :
    states.size = states'.size ∧
      ∀ s < states.size, ∀ X, target? states' s X = target? states s X := by
  have hself := h.eq_self hs hs'
  constructor
  · have heq : Set.EqOn σ id (Set.Iio states.size) := hself
    have himage := h.bijOn.image_eq
    rw [heq.image_eq, Set.image_id] at himage
    have hlt : ∀ k, k < states.size ↔ k < states'.size := Set.ext_iff.mp himage
    apply Nat.le_antisymm
    · exact Nat.not_lt.mp fun hgt => Nat.lt_irrefl _ ((hlt _).mp hgt)
    · exact Nat.not_lt.mp fun hgt => Nat.lt_irrefl _ ((hlt _).mpr hgt)
  · intro s hlt X
    have htarget := h.target s hlt X
    rw [hself s hlt] at htarget
    cases ht : target? states s X with
    | none => simpa [ht] using htarget
    | some t => simpa [ht, hself t (hs.target_lt ht)] using htarget

end SimpleLR
