import SimpleLR.Proofs.Automaton.Conflict

/-!
# The cells of a reduce table

A table comes about unless some state clashes. Each of its cells then holds the one candidate that the
state has for the lookahead, if there is any, and a state that can shift a lookahead has none for it.
-/
namespace SimpleLR

/-- Complete items of a state that are of one production are the same. -/
theorem Grammar.complete_inj {g : Grammar} {n : Nat} {s : State} (hs : g.states[n]? = some s)
    {i j : Item} (hi : i ∈ s.items) (hj : j ∈ s.items) (hci : i.isComplete g = true)
    (hcj : j.isComplete g = true) (h : i.production = j.production) : i = j := by
  obtain ⟨p, hp, d, -, rfl⟩ := states_belongsTo hs hi
  obtain ⟨q, hq, e, -, rfl⟩ := states_belongsTo hs hj
  obtain rfl := Production.eq_of_id_eq hp hq h
  rw [(Production.itemAt_isComplete hp d).mp hci, (Production.itemAt_isComplete hp e).mp hcj]

namespace ReduceTable

variable {g : Grammar} {f : Facts} {t : ReduceTable}

section

variable (h : ReduceTable.build g f g.states = .ok t) {n : Nat} {s : State}
  (hs : g.states[n]? = some s)

include h hs

/-- A candidate has its cell, and the state cannot shift there. -/
theorem get?_of_candidate {la : Lookahead} {i : Item} (hi : Candidate g f s la i) :
    t.get? n la = some i ∧ s.shift? la = none := by
  obtain ⟨hmem, hc, hla⟩ := hi
  obtain ⟨⟨j, hj, hprod⟩, hshift⟩ := get?_of_claim h hs hmem hc hla
  obtain ⟨s', hs', hjmem, hjc⟩ := mem_of_get? h hj
  rw [hs] at hs'
  obtain rfl := Option.some.inj hs'
  obtain rfl := Grammar.complete_inj hs hjmem hmem hjc hc hprod
  exact ⟨hj, hshift⟩

theorem Candidate.unique {la : Lookahead} {i j : Item} (hi : Candidate g f s la i)
    (hj : Candidate g f s la j) : i = j := by
  have hcell := (get?_of_candidate h hs hi).1
  rw [(get?_of_candidate h hs hj).1] at hcell
  exact (Option.some.inj hcell).symm

theorem not_clashes : ¬Clashes g f s := by
  intro hclash
  cases hclash with
  | reduceReduce hi hj hne => exact hne (congrArg Item.production (Candidate.unique h hs hi hj))
  | @shiftReduce c _ _ hi ht =>
    have hshift : s.transition? c = none := (get?_of_candidate h hs hi).2
    rw [ht] at hshift
    contradiction

/-- What stands in the cell of a lookahead of the grammar is a candidate for it. -/
theorem candidate_of_get? (hf : f.Covers g)
    {la : Lookahead} (hla : la.Below g.symbolCount) {i : Item} (hi : t.get? n la = some i) :
    Candidate g f s la i := by
  obtain ⟨s', lb, hs', hmem, hcolumn⟩ := claim_of_get? h hi
  rw [hs] at hs'
  obtain rfl := Option.some.inj hs'
  have hlb : Candidate g f s lb i := mem_claims.mp hmem
  obtain rfl := (below_of_mem_follow hf _ lb hlb.2.2).column_inj hla hcolumn
  exact hlb

end

theorem row_size (h : ReduceTable.build g f g.states = .ok t) {row : Row} (hrow : row ∈ t.rows) :
    row.size = g.symbolCount + 1 := by
  obtain ⟨n, hn⟩ := Array.mem_iff_getElem?.mp hrow
  obtain ⟨s, -, hfilled⟩ := build_filled h hn
  exact hfilled.size

section

variable (hf : f.Covers g)

include hf

theorem exists_build_iff :
    (∃ t, ReduceTable.build g f g.states = .ok t) ↔ ¬∃ s ∈ g.states, Clashes g f s := by
  constructor
  · rintro ⟨t, ht⟩ ⟨s, hs, hclash⟩
    obtain ⟨n, hn⟩ := Array.mem_iff_getElem?.mp hs
    exact not_clashes ht hn hclash
  · intro hno
    cases hb : ReduceTable.build g f g.states with
    | ok t => exact ⟨t, rfl⟩
    | error e => exact absurd (build_error hf hb).2 hno

theorem exists_conflict_iff :
    (∃ c, ReduceTable.build g f g.states = .error (.conflict c)) ↔
      ∃ s ∈ g.states, Clashes g f s := by
  constructor
  · rintro ⟨c, hc⟩
    exact (build_error hf hc).2
  · intro hclash
    cases hb : ReduceTable.build g f g.states with
    | ok t => exact absurd hclash ((exists_build_iff hf).mp ⟨t, hb⟩)
    | error e =>
      obtain ⟨⟨c, rfl⟩, -⟩ := build_error hf hb
      exact ⟨c, rfl⟩

/-- The cell of a lookahead holds the candidate for it. -/
theorem get?_eq_some_iff (h : ReduceTable.build g f g.states = .ok t) {n : Nat} {s : State}
    (hs : g.states[n]? = some s) {la : Lookahead} (hla : la.Below g.symbolCount) {i : Item} :
    t.get? n la = some i ↔ Candidate g f s la i :=
  ⟨candidate_of_get? h hs hf hla, fun hi => (get?_of_candidate h hs hi).1⟩

end

/-- With facts that cover it, a grammar has a conflict exactly when one of its states clashes, and a table
otherwise. The table has a row for each state, with a cell for each symbol and one for the end of the
input; the cells hold the candidates of the states and nothing else. -/
theorem build_exact (hf : f.Covers g) :
    ((∃ c, ReduceTable.build g f g.states = .error (.conflict c)) ↔ ∃ s ∈ g.states, Clashes g f s) ∧
    ((∃ t, ReduceTable.build g f g.states = .ok t) ↔ ¬∃ s ∈ g.states, Clashes g f s) ∧
    ∀ t, ReduceTable.build g f g.states = .ok t →
      t.rows.size = g.states.size ∧ (∀ row ∈ t.rows, row.size = g.symbolCount + 1) ∧
      ∀ n s, g.states[n]? = some s → ∀ la : Lookahead, la.Below g.symbolCount →
        (∀ i, t.get? n la = some i ↔ Candidate g f s la i) ∧
        (t.get? n la ≠ none → s.shift? la = none) ∧
        ∀ i j, Candidate g f s la i → Candidate g f s la j → i = j := by
  refine ⟨exists_conflict_iff hf, exists_build_iff hf, ?_⟩
  intro t ht
  refine ⟨build_size ht, fun row hrow => row_size ht hrow, ?_⟩
  intro n s hs la hla
  refine ⟨fun i => get?_eq_some_iff hf ht hs hla, ?_, fun i j => Candidate.unique ht hs⟩
  intro hfilled
  obtain ⟨i, hi⟩ := Option.ne_none_iff_exists'.mp hfilled
  exact (get?_of_candidate ht hs ((get?_eq_some_iff hf ht hs hla).mp hi)).2

/-- Facts that say what follows `S`. -/
def balancedFollow (lookaheads : List Lookahead) : Facts :=
  ⟨#[], #[], #[.ofList lookaheads, .empty, .empty]⟩

theorem balancedFollow_covers {lookaheads : List Lookahead}
    (h : ∀ la ∈ lookaheads, la ∈ Follow.lookaheads .balanced) :
    (balancedFollow lookaheads).Covers .balanced := by
  refine ⟨rfl, fun A la hla => ?_⟩
  have hA : A < 3 := lt_size_of_mem_setAt hla
  obtain rfl | rfl | rfl : A = 0 ∨ A = 1 ∨ A = 2 := by omega
  · exact h la (OrdSet.mem_ofList.mp hla)
  · exact absurd hla (OrdSet.not_mem_empty la)
  · exact absurd hla (OrdSet.not_mem_empty la)

/-- No state of the grammar `S → a S b | ε` clashes if `b` and the end of the input follow `S`, but one
does if `a` follows `S`. -/
theorem build_exact_balanced :
    ((balancedFollow [.terminal 4, .endOfInput]).Covers .balanced ∧
      ¬∃ s ∈ Grammar.balanced.states,
        Clashes .balanced (balancedFollow [.terminal 4, .endOfInput]) s) ∧
    (balancedFollow [.terminal 3]).Covers .balanced ∧
      ∃ s ∈ Grammar.balanced.states, Clashes .balanced (balancedFollow [.terminal 3]) s := by
  have hgood : (balancedFollow [.terminal 4, .endOfInput]).Covers .balanced :=
    balancedFollow_covers (by decide)
  have hbad : (balancedFollow [.terminal 3]).Covers .balanced := balancedFollow_covers (by decide)
  have hok : (ReduceTable.build .balanced (balancedFollow [.terminal 4, .endOfInput])
      Grammar.balanced.states).toOption.isSome = true := by
    decide +kernel
  have hconflict : ReduceTable.build .balanced (balancedFollow [.terminal 3])
      Grammar.balanced.states = .error (.conflict (.shiftReduce 0 2 3 2)) := by
    decide +kernel
  obtain ⟨t, ht⟩ := Option.isSome_iff_exists.mp hok
  constructor
  · exact ⟨hgood, (build_exact hgood).2.1.mp ⟨t, eq_ok_of_toOption ht⟩⟩
  · exact ⟨hbad, (build_exact hbad).1.mp ⟨_, hconflict⟩⟩

end ReduceTable

end SimpleLR
