import SimpleLR.Proofs.Automaton.ReduceTable
import SimpleLR.Proofs.Automaton.ViablePrefix
import SimpleLR.Tables

/-!
# Actions of an automaton

The automaton of a grammar accepts in the one state that holds the item of production 0 with the start
symbol read. It shifts where the next symbol of an item is the lookahead, and reduces where a complete
item has the lookahead in the FOLLOW set of its left side.
-/
namespace SimpleLR

theorem Tables.build_eq_ok {g : Grammar} {t : Tables} (h : build g = .ok t) :
    t.grammar = g ∧ Automaton.build g (Facts.ofGrammar g) = .ok t.automaton := by
  dsimp only [build] at h
  cases ha : Automaton.build g (Facts.ofGrammar g) with
  | error e =>
    rw [ha] at h
    contradiction
  | ok a =>
    rw [ha] at h
    obtain rfl := Except.ok.inj h
    exact ⟨rfl, rfl⟩

namespace Automaton

variable {g : Grammar} {f : Facts} {a : Automaton}

theorem build_eq_ok (h : build g f = .ok a) :
    ReduceTable.build g f g.states = .ok a.reduces ∧ a.states = g.states ∧
      a.accepting = g.states.findIdx? fun s => s.items.contains g.acceptItem := by
  dsimp only [build] at h
  cases hr : ReduceTable.build g f g.states with
  | error e =>
    rw [hr] at h
    contradiction
  | ok t =>
    rw [hr] at h
    obtain rfl := Except.ok.inj h
    exact ⟨rfl, rfl, rfl⟩

section

variable (ha : build g f = .ok a) {s : Nat} {st : State}

include ha

theorem states_of_build : a.states = g.states := (build_eq_ok ha).2.1

theorem transition?_eq (hs : g.states[s]? = some st) (X : Nat) :
    a.transition? s X = st.transition? X := by
  rw [transition?, states_of_build ha, hs, Option.bind_some]

theorem shift?_eq (hs : g.states[s]? = some st) (la : Lookahead) :
    a.shift? s la = st.shift? la := by
  rw [shift?, states_of_build ha, hs, Option.bind_some]

/-- The accepting state is the one that holds the item of production 0 with the start symbol read. -/
theorem accepting_eq_some (hs : g.states[s]? = some st) :
    a.accepting = some s ↔ g.acceptItem ∈ st.items := by
  rw [(build_eq_ok ha).2.2]
  constructor
  · intro h
    obtain ⟨hlt, hcontains, -⟩ := Array.findIdx?_eq_some_iff_getElem.mp h
    rw [Array.getElem?_eq_getElem hlt] at hs
    rwa [← Option.some.inj hs, ← OrdSet.contains_iff_mem]
  · intro h
    cases hfind : g.states.findIdx? fun s => s.items.contains g.acceptItem with
    | none =>
      have hno := Array.findIdx?_eq_none_iff.mp hfind st (Array.mem_of_getElem? hs)
      rw [OrdSet.contains_iff_mem.mpr h] at hno
      contradiction
    | some t =>
      obtain ⟨hlt, hcontains, -⟩ := Array.findIdx?_eq_some_iff_getElem.mp hfind
      have := Grammar.acceptItem_unique hs (Array.getElem?_eq_getElem hlt) h
        (OrdSet.contains_iff_mem.mp hcontains)
      rw [this]

theorem accepting_lt (h : a.accepting = some s) : s < g.states.size := by
  rw [(build_eq_ok ha).2.2] at h
  exact (Array.findIdx?_eq_some_iff_getElem.mp h).1

theorem exists_accepting : ∃ s, a.accepting = some s := by
  obtain ⟨-, s, st, -, -, hst, h⟩ := g.exists_acceptItem
  exact ⟨s, (accepting_eq_some ha hst).mpr h⟩

theorem action?_accept (hs : g.states[s]? = some st) (h : g.acceptItem ∈ st.items) :
    a.action? s .endOfInput = some .accept := by
  rw [action?, if_pos ⟨rfl, (accepting_eq_some ha hs).mpr h⟩]

theorem action?_shift (hs : g.states[s]? = some st) {c t : Nat} (ht : st.transition? c = some t) :
    a.action? s (.terminal c) = some (.shift t) := by
  rw [action?, if_neg (by simp), shift?_eq ha hs, show st.shift? (.terminal c) = some t from ht]

/-- A complete item is reduced by on the lookaheads of its left side, if it is not of production 0. -/
theorem action?_reduce (hlast : .endOfInput ∈ f.follow g.augmentedStart)
    (hs : g.states[s]? = some st) {p : Production} (hp : p ∈ g.productions)
    (hp0 : p ≠ g.startProduction) (hi : p.itemAt p.rhs.length ∈ st.items) {la : Lookahead}
    (hla : la ∈ f.follow p.lhs) :
    ∃ j, a.action? s la = some (.reduce j) ∧ j.production = p.id := by
  have hr := (build_eq_ok ha).1
  have hc := (Production.itemAt_isComplete hp _).mpr rfl
  obtain ⟨⟨j, hj, hprod⟩, hshift⟩ := ReduceTable.get?_of_claim hr hs hi hc hla
  -- In the accepting state, production 0 would have to share the last cell with this one.
  have hno : ¬(la = .endOfInput ∧ a.accepting = some s) := by
    rintro ⟨rfl, hacc⟩
    have hi0 := (accepting_eq_some ha hs).mp hacc
    have hc0 : g.acceptItem.isComplete g = true :=
      (Production.itemAt_isComplete List.mem_cons_self _).mpr rfl
    obtain ⟨⟨j', hj', hprod'⟩, -⟩ := ReduceTable.get?_of_claim hr hs hi0 hc0 hlast
    rw [hj] at hj'
    obtain rfl := Option.some.inj hj'
    exact hp0 (Production.eq_of_id_eq hp List.mem_cons_self (hprod.symm.trans hprod'))
  use j
  rw [action?, if_neg hno, shift?_eq ha hs, hshift, hj]
  exact ⟨rfl, hprod⟩

theorem of_action?_accept (hs : g.states[s]? = some st) {la : Lookahead}
    (h : a.action? s la = some .accept) : la = .endOfInput ∧ g.acceptItem ∈ st.items := by
  rw [action?] at h
  split at h
  · rename_i hacc
    exact ⟨hacc.1, (accepting_eq_some ha hs).mp hacc.2⟩
  · split at h <;> simp at h

theorem of_action?_shift (hs : g.states[s]? = some st) {la : Lookahead} {t : Nat}
    (h : a.action? s la = some (.shift t)) : ∃ c, la = .terminal c ∧ st.transition? c = some t := by
  rw [action?, shift?_eq ha hs] at h
  split at h
  · simp at h
  · split at h
    · rename_i target hshift
      obtain rfl := Action.shift.inj (Option.some.inj h)
      cases la with
      | endOfInput => contradiction
      | terminal c => exact ⟨c, rfl, hshift⟩
    · simp at h

/-- What is reduced by is a complete item of the state, which does not accept. -/
theorem of_action?_reduce (hs : g.states[s]? = some st) {la : Lookahead} {i : Item}
    (h : a.action? s la = some (.reduce i)) :
    i ∈ st.items ∧ i.isComplete g = true ∧ a.reduces.get? s la = some i ∧
      ¬(la = .endOfInput ∧ g.acceptItem ∈ st.items) := by
  rw [action?] at h
  split at h
  · simp at h
  · rename_i hno
    split at h
    · simp at h
    · obtain ⟨j, hj, hij⟩ := Option.map_eq_some_iff.mp h
      obtain rfl := Action.reduce.inj hij
      obtain ⟨st', hst', hi, hc⟩ := ReduceTable.mem_of_get? (build_eq_ok ha).1 hj
      rw [hs] at hst'
      obtain rfl := Option.some.inj hst'
      exact ⟨hi, hc, hj, fun hacc => hno ⟨hacc.1, (accepting_eq_some ha hs).mpr hacc.2⟩⟩

end

end Automaton

end SimpleLR
