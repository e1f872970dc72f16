import SimpleLR.Proofs.Automaton.Actions
import SimpleLR.Proofs.Automaton.Cells
import SimpleLR.Proofs.Facts.Least

/-!
# The accepting state

A recognizer accepts by the number of its state alone. That is right because one state only has read
nothing but the start symbol, and because production 0 has one cell in the whole table: the last one of
that state. Nothing else has a claim to that cell, or there would be a conflict.
-/
namespace SimpleLR

variable {g : Grammar}

/-- A complete item of production 0 has the start symbol read. -/
theorem Item.BelongsTo.eq_acceptItem {i : Item} (hi : i.BelongsTo g) (hc : i.isComplete g = true)
    (h0 : i.production = 0) : i = g.acceptItem := by
  obtain ⟨p, hp, d, -, rfl⟩ := hi
  obtain rfl : p = g.startProduction := Production.eq_of_id_eq hp List.mem_cons_self h0
  have hd : d = 1 := (Production.itemAt_isComplete hp d).mp hc
  rw [hd, Grammar.acceptItem_eq]

namespace ReduceTable

theorem candidate_acceptItem {s : State} (hs : g.acceptItem ∈ s.items) :
    Candidate g (Facts.ofGrammar g) s .endOfInput g.acceptItem := by
  have hc : g.acceptItem.isComplete g = true :=
    (Production.itemAt_isComplete List.mem_cons_self _).mpr rfl
  exact ⟨hs, hc, (Facts.closed_ofGrammar g).last⟩

/-- What holds production 0 is the last cell of a state in which the start symbol has been read. -/
theorem cell_of_production_zero {t : ReduceTable} (ht : build g (Facts.ofGrammar g) g.states = .ok t)
    {n k : Nat} {row : Row} (hrow : t.rows[n]? = some row) {i : Item} (hi : row[k]? = some (some i))
    (h0 : i.production = 0) :
    (∃ s, g.states[n]? = some s ∧ g.acceptItem ∈ s.items) ∧ k = g.symbolCount ∧
      i = g.acceptItem := by
  obtain ⟨s, hs, hfilled⟩ := build_filled ht hrow
  obtain ⟨la, hclaim, hcolumn⟩ := hfilled.claimed k i hi
  obtain ⟨hmem, hc, hla⟩ := mem_claims.mp hclaim
  obtain rfl := (Grammar.states_belongsTo hs hmem).eq_acceptItem hc h0
  obtain rfl : la = .endOfInput := Facts.follow_augmentedStart hla
  exact ⟨⟨s, hs, hmem⟩, hcolumn.symm, rfl⟩

end ReduceTable

namespace Tables

/-- The accepting state is where state 0 goes on the start symbol. No other state holds the item of
production 0 with that symbol read; the accepting state has it in its last cell, and no other cell of the
table is for production 0. -/
theorem accepting_exact {t : Tables} (ht : build g = .ok t) :
    ∃ a st, t.automaton.accepting = some a ∧ t.automaton.transition? 0 g.start = some a ∧
      t.automaton.states[a]? = some st ∧
      (∀ n s, t.automaton.states[n]? = some s → (g.acceptItem ∈ s.items ↔ n = a)) ∧
      t.automaton.reduces.get? a .endOfInput = some g.acceptItem ∧
      ∀ n row k i, t.automaton.reduces.rows[n]? = some row → row[k]? = some (some i) →
        i.production = 0 → n = a ∧ k = g.symbolCount ∧ i = g.acceptItem := by
  obtain ⟨-, ha⟩ := build_eq_ok ht
  obtain ⟨hreduces, hstates, -⟩ := Automaton.build_eq_ok ha
  obtain ⟨first, a, st, hfirst, htarget, hst, hmem⟩ := g.exists_acceptItem
  rw [hstates]
  refine ⟨a, st, (Automaton.accepting_eq_some ha hst).mpr hmem, ?_, hst, ?_, ?_, ?_⟩
  · rw [Automaton.transition?_eq ha hfirst, htarget]
  · intro n s hs
    constructor
    · exact fun h => Grammar.acceptItem_unique hs hst h hmem
    · rintro rfl
      obtain rfl := Option.mem_unique hst hs
      exact hmem
  · exact (ReduceTable.get?_of_candidate hreduces hst (ReduceTable.candidate_acceptItem hmem)).1
  · intro n row k i hrow hi h0
    obtain ⟨⟨s, hs, hread⟩, hk, hitem⟩ := ReduceTable.cell_of_production_zero hreduces hrow hi h0
    exact ⟨Grammar.acceptItem_unique hs hst hread hmem, hk, hitem⟩

end Tables

/-- The grammar `S → S a | a`, with the codes 0 for `S` and 2 for `a`. -/
def Grammar.series : Grammar where
  name := "series"
  package := ""
  symbols := [⟨"S", []⟩, .augmentedStart, ⟨"a", []⟩]
  augmentedStart := 1
  start := 0
  rules := [⟨1, 0, [0, 2], []⟩, ⟨2, 0, [2], []⟩]
  start_lt := Nat.zero_lt_one
  symbols_augmentedStart := rfl
  names_nodup := by decide
  rules_ids := rfl
  rules_sides := by decide

/-- The state after `S` accepts, although it also goes on with `a`. -/
theorem Tables.accepting_exact_series : ∃ t, build .series = .ok t ∧
    t.automaton.accepting = some 1 ∧ t.automaton.transition? 1 2 = some 3 ∧
      t.automaton.transition? 0 0 = some 1 ∧
      t.automaton.reduces.get? 1 .endOfInput = some ⟨0, 1, 1⟩ := by
  have hbuild : ((build .series).toOption.map fun t =>
      (t.automaton.accepting, t.automaton.transition? 1 2)) = some (some 1, some 3) := by
    decide +kernel
  obtain ⟨t, ht, hvalues⟩ := Option.map_eq_some_iff.mp hbuild
  obtain ⟨haccepting, hnext⟩ := Prod.mk.inj hvalues
  have hok := eq_ok_of_toOption ht
  obtain ⟨a, -, ha, hstart, -, -, hcell, -⟩ := accepting_exact hok
  rw [haccepting] at ha
  obtain rfl := Option.some.inj ha
  exact ⟨t, hok, haccepting, hnext, hstart, hcell⟩

end SimpleLR
