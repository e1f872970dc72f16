import SimpleLR.Proofs.Automaton.ReduceTable
import SimpleLR.Proofs.Facts.Closed
import SimpleLR.Tables

/-!
# Why there is no table

Nothing dangles where the facts cover the grammar: each item of a state is one of a production, and each
lookahead of a FOLLOW set has a column of its own. So the only reason why there is no table is a conflict,
and it lies in a state that could do two things on one lookahead.
-/
namespace SimpleLR

/-- The facts have a FOLLOW set for each nonterminal of a grammar, with nothing but lookaheads of that
grammar in them. -/
def Facts.Covers (f : Facts) (g : Grammar) : Prop :=
  f.follows.size = g.nonterminalCount ∧ ∀ A, ∀ la ∈ f.follow A, la ∈ Follow.lookaheads g

theorem Facts.covers_ofGrammar (g : Grammar) : (ofGrammar g).Covers g := within_ofGrammar g

/-- The lookahead is the end of the input or has a code below a number. -/
def Lookahead.Below (n : Nat) (la : Lookahead) : Prop := ∀ c, la = .terminal c → c < n

theorem Follow.terminal_mem_lookaheads {g : Grammar} {c : Nat} :
    .terminal c ∈ lookaheads g ↔ c ∈ g.terminals := by
  simp [lookaheads]

theorem Follow.below_of_mem_lookaheads {g : Grammar} {la : Lookahead} (h : la ∈ lookaheads g) :
    la.Below g.symbolCount := by
  rintro c rfl
  exact (Grammar.mem_terminals.mp (terminal_mem_lookaheads.mp h)).2

theorem Lookahead.Below.column_le {n : Nat} {la : Lookahead} (h : la.Below n) : la.column n ≤ n := by
  cases la with
  | endOfInput => exact Nat.le_refl n
  | terminal c => exact Nat.le_of_lt (h c rfl)

theorem Lookahead.Below.column_inj {n : Nat} {la lb : Lookahead} (ha : la.Below n) (hb : lb.Below n)
    (h : la.column n = lb.column n) : la = lb := by
  cases la with
  | endOfInput =>
    cases lb with
    | endOfInput => rfl
    | terminal d => exact absurd (hb d rfl) (Nat.not_lt.mpr (Nat.le_of_eq h))
  | terminal c =>
    cases lb with
    | endOfInput => exact absurd (ha c rfl) (Nat.not_lt.mpr (Nat.le_of_eq h.symm))
    | terminal d => exact congrArg terminal h

namespace ReduceTable

/-- A complete item of a state may be reduced by on a lookahead that can follow its left side. -/
def Candidate (g : Grammar) (f : Facts) (s : State) (la : Lookahead) (i : Item) : Prop :=
  i ∈ s.items ∧ i.isComplete g = true ∧ la ∈ f.follow i.lhs

/-- On some lookahead, a state could be reduced in by two productions, or both reduced in and shifted
from. -/
inductive Clashes (g : Grammar) (f : Facts) (s : State) : Prop
  | reduceReduce {la : Lookahead} {i j : Item} (hi : Candidate g f s la i)
      (hj : Candidate g f s la j) (hne : i.production ≠ j.production)
  | shiftReduce {c t : Nat} {i : Item} (hi : Candidate g f s (.terminal c) i)
      (ht : s.transition? c = some t)

variable {g : Grammar} {f : Facts} {number : Nat} {s : State}

/-- A claim is refused for a conflict: with another production that has the cell, or else with a shift. -/
theorem placeClaim_error {row : Row} {i : Item} {la : Lookahead} {e : TableError}
    (hla : la.column g.symbolCount < row.size)
    (h : placeClaim g number s row (i, la) = .error e) :
    (∃ j, row[la.column g.symbolCount]? = some (some j) ∧ j.production ≠ i.production ∧
      e = .conflict (.reduceReduce number j.production i.production la)) ∨
    (∀ j, row[la.column g.symbolCount]? = some (some j) → j.production = i.production) ∧
      ∃ c t, la = .terminal c ∧ s.transition? c = some t ∧
        e = .conflict (.shiftReduce number i.production c t) := by
  simp only [placeClaim, place, Array.getElem?_eq_getElem hla, Option.some.injEq] at h ⊢
  split at h
  · rename_i conflict hconflict
    obtain rfl := Except.error.inj h
    unfold conflict? at hconflict
    split at hconflict
    · rename_i other hother
      obtain rfl := Option.some.inj hconflict
      obtain ⟨hcell, hne⟩ := Option.filter_eq_some_iff.mp hother
      exact .inl ⟨other, hcell, of_decide_eq_true hne, rfl⟩
    · rename_i c t hnone ht
      obtain rfl := Option.some.inj hconflict
      refine .inr ⟨fun j hj => ?_, c, t, rfl, ht, rfl⟩
      rw [hj, Option.filter_eq_none_iff] at hnone
      simpa using hnone j rfl
    · contradiction
  · contradiction

section

variable (hi : ∀ i ∈ s.items, Known g f i) (hf : ∀ A, ∀ la ∈ f.follow A, la.Below g.symbolCount)

include hi hf

/-- When the items are known and the lookaheads have columns of their own, a row is refused at one of the
claims: for another production that has been met on the lookahead, or else for a shift. -/
theorem fillRow_refused {e : TableError} (h : fillRow g f number s = .error e) :
    ∃ done i la left row, claims g f s.items.toList = done ++ (i, la) :: left ∧ Filled g s done row ∧
      ((∃ j, (j, la) ∈ done ∧ j.production ≠ i.production ∧
          e = .conflict (.reduceReduce number j.production i.production la)) ∨
        (∀ j, (j, la) ∈ done → j.production = i.production) ∧
          ∃ c t, la = .terminal c ∧ s.transition? c = some t ∧
            e = .conflict (.shiftReduce number i.production c t)) := by
  rw [fillRow, foldlM_placeItem_eq hi] at h
  obtain ⟨done, ⟨i, la⟩, left, row, hclaims, hrow, herror⟩ := foldlM_error (Filled g s)
    (fun _ _ _ _ hrow hc => hrow.placeClaim hc) [] filled_nil h
  refine ⟨done, i, la, left, row, hclaims, hrow, ?_⟩
  have hbelow : ∀ {j lb}, (j, lb) ∈ done ++ (i, la) :: left → lb.Below g.symbolCount := fun hj =>
    hf _ _ (mem_claims.mp (hclaims ▸ hj)).2.2
  have hla : la.Below g.symbolCount := hbelow (List.mem_append_right done List.mem_cons_self)
  rcases placeClaim_error (hrow.size ▸ Nat.lt_succ_of_le hla.column_le) herror with
    ⟨j, hj, hne, he⟩ | ⟨hcell, hshift⟩
  · obtain ⟨lb, hmet, hcolumn⟩ := hrow.claimed _ j hj
    obtain rfl := (hbelow (List.mem_append_left _ hmet)).column_inj hla hcolumn
    exact .inl ⟨j, hmet, hne, he⟩
  · refine .inr ⟨fun j hmet => ?_, hshift⟩
    obtain ⟨k, hk, hprod⟩ := hrow.placed j la hmet
    exact hprod.symm.trans (hcell k hk)

theorem fillRow_error {e : TableError} (h : fillRow g f number s = .error e) :
    (∃ c, e = .conflict c) ∧ Clashes g f s := by
  obtain ⟨done, i, la, left, row, hclaims, -, hrefused⟩ := fillRow_refused hi hf h
  have hia : Candidate g f s la i := mem_claims.mp (hclaims ▸ by simp)
  rcases hrefused with ⟨j, hmet, hne, rfl⟩ | ⟨-, c, t, rfl, ht, rfl⟩
  · have hja : Candidate g f s la j := mem_claims.mp (hclaims ▸ List.mem_append_left _ hmet)
    exact ⟨⟨_, rfl⟩, .reduceReduce hja hia hne⟩
  · exact ⟨⟨_, rfl⟩, .shiftReduce hia ht⟩

end

/-- The table is refused for a row, after all rows before have come about. -/
theorem build_first_row {e : TableError} (h : ReduceTable.build g f g.states = .error e) :
    ∃ n s, g.states[n]? = some s ∧ fillRow g f n s = .error e ∧
      ∀ m s', g.states[m]? = some s' → m < n → ∃ row, fillRow g f m s' = .ok row := by
  rw [build_eq] at h
  cases hm : g.states.toList.zipIdx.mapM fun c => fillRow g f c.2 c.1 with
  | ok rows =>
    rw [hm] at h
    contradiction
  | error e' =>
    rw [hm] at h
    obtain rfl := Except.error.inj h
    obtain ⟨done, ⟨s, n⟩, left, hzip, hdone, herror⟩ := mapM_error hm
    have hmem : (s, n) ∈ g.states.toList.zipIdx := hzip ▸ by simp
    have hs : g.states[n]? = some s := by simpa [List.mem_zipIdx_iff_getElem?] using hmem
    refine ⟨n, s, hs, herror, ?_⟩
    intro m s' hs' hlt
    exact hdone (s', m) (mem_of_zipIdx_eq hzip (by simpa using hs') hlt)

section

variable (hf : f.Covers g)

include hf

/-- Facts that have a FOLLOW set for each nonterminal know the items of the grammar. -/
theorem known_of_belongsTo {i : Item} (hi : i.BelongsTo g) : Known g f i := by
  obtain ⟨p, hp, d, -, rfl⟩ := hi
  constructor
  · exact ⟨p, Grammar.production?_id hp⟩
  · intro _
    have hlt : p.lhs < f.follows.size := hf.1 ▸ Grammar.lhs_lt hp
    exact ⟨_, Array.getElem?_eq_getElem hlt⟩

theorem known_of_state {n : Nat} (hs : g.states[n]? = some s) : ∀ i ∈ s.items, Known g f i :=
  fun _ hi => known_of_belongsTo hf (Grammar.states_belongsTo hs hi)

theorem below_of_mem_follow (A : Nat) (la : Lookahead) (h : la ∈ f.follow A) :
    la.Below g.symbolCount :=
  Follow.below_of_mem_lookaheads (hf.2 A la h)

/-- A grammar is refused a table for a conflict only, and one of its states clashes. -/
theorem build_error {e : TableError} (h : ReduceTable.build g f g.states = .error e) :
    (∃ c, e = .conflict c) ∧ ∃ s ∈ g.states, Clashes g f s := by
  obtain ⟨n, s, hs, herror, -⟩ := build_first_row h
  obtain ⟨hc, hclash⟩ := fillRow_error (known_of_state hf hs) (below_of_mem_follow hf) herror
  exact ⟨hc, s, Array.mem_of_getElem? hs, hclash⟩

end

end ReduceTable

/-- A grammar without tables has a conflict. -/
theorem Tables.build_error {g : Grammar} {e : TableError} (h : Tables.build g = .error e) :
    ∃ c, e = .conflict c := by
  dsimp only [Tables.build, Automaton.build] at h
  cases hr : ReduceTable.build g (Facts.ofGrammar g) g.states with
  | ok t =>
    rw [hr] at h
    contradiction
  | error e' =>
    rw [hr] at h
    obtain rfl := Except.error.inj h
    exact (ReduceTable.build_error (Facts.covers_ofGrammar g) hr).1

end SimpleLR
