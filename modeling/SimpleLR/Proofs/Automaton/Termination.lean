import SimpleLR.Proofs.Automaton.States
import SimpleLR.Proofs.Derivation
import Mathlib.Algebra.Ring.Nat

/-!
# How long the search for states goes on

The search for the states of a grammar takes one step for each of them, and no two of them are the same set
of items. The search for a closure takes at most one step for each item given and one for each production.
-/
namespace SimpleLR

/-- The list of an ordered set has each element once. -/
theorem OrdSet.nodup_toList {α : Type} [Ord α] [Std.ReflOrd α] (s : OrdSet α) : s.toList.Nodup := by
  apply s.ascending.imp
  rintro a _ h rfl
  rw [Std.ReflOrd.compare_self] at h
  contradiction

theorem OrdSet.size_ofList {α : Type} [Ord α] [Std.TransOrd α] [Std.LawfulEqOrd α] [DecidableEq α]
    (as : List α) : (ofList as).size = as.toFinset.card := by
  rw [size, ← List.toFinset_card_of_nodup (nodup_toList _)]
  congr 1
  ext a
  rw [List.mem_toFinset, List.mem_toFinset, ← mem_iff, mem_ofList]

namespace Grammar

theorem itemCount_eq_sum (g : Grammar) :
    g.itemCount = (g.productions.map fun p => p.rhs.length + 1).sum := by
  rw [itemCount]
  induction g.productions with
  | nil => rfl
  | cons p ps ih => simp [ih]

theorem states_size_eq (g : Grammar) : g.states.size = (Exploration.complete g).rows.size := by
  have hstates : g.states =
    Array.zipWith State.mk (Exploration.complete g).found (Exploration.complete g).rows := rfl
  rw [hstates, Array.size_zipWith, Exploration.found_size_complete, Nat.min_self]

/-- The search for the states comes to its end after as many steps as there are states, and these are no
more than the sets of places for a dot in the productions. The search for a closure comes to its end after
at most one step for each given item, counted once, and each production. -/
theorem searches_end (g : Grammar) :
    (∃ e, EndsAfter (Exploration.step g) g.states.size (Exploration.start g) e ∧
      e.found.size = g.states.size ∧ g.states = Array.zipWith State.mk e.found e.rows ∧
      g.states.size ≤ 2 ^ (g.productions.map fun p => p.rhs.length + 1).sum) ∧
    ∀ items : List Item, g.hasAll items = true →
      ∃ n ≤ items.toFinset.card + g.productions.length, ∃ e,
        EndsAfter (Expansion.step g) n (Expansion.ofItems items) e ∧
          closure? g items = some e.items := by
  constructor
  · have hfound := (Exploration.found_size_complete g).trans g.states_size_eq.symm
    have hbound := (Exploration.sound_complete g).found_size_le
    rw [hfound, itemCount_eq_sum] at hbound
    refine ⟨Exploration.complete g, ?_, hfound, rfl, hbound⟩
    rw [states_size_eq]
    exact Exploration.endsAfter_complete g
  · intro items hitems
    obtain ⟨n, hle, hends⟩ := closure_endsAfter g items
    have hsize : (Expansion.ofItems items).items.size = items.toFinset.card := OrdSet.size_ofList items
    exact ⟨n, hsize ▸ hle, _, hends, if_pos hitems⟩

/-- Two items of the grammar `S → a S b | ε`, `U → a U`, one of them twice and with its dot past the end. -/
theorem searches_end_balanced :
    balanced.hasAll [⟨1, 9, 7⟩, ⟨3, 1, 5⟩, ⟨1, 9, 7⟩] = true ∧ ∃ n ≤ 2 + 4, ∃ e,
      EndsAfter (Expansion.step balanced) n
        (Expansion.ofItems [⟨1, 9, 7⟩, ⟨3, 1, 5⟩, ⟨1, 9, 7⟩]) e ∧
      closure? balanced [⟨1, 9, 7⟩, ⟨3, 1, 5⟩, ⟨1, 9, 7⟩] = some e.items := by
  have hitems : balanced.hasAll [⟨1, 9, 7⟩, ⟨3, 1, 5⟩, ⟨1, 9, 7⟩] = true := by decide
  exact ⟨hitems, (searches_end balanced).2 _ hitems⟩

end Grammar

end SimpleLR
