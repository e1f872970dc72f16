import SimpleLR.Proofs.Automaton.States
import SimpleLR.Proofs.Except
import SimpleLR.Automaton.ReduceTable

/-!
# What a reduce table holds

A complete item of a state claims the cells of the lookaheads in the FOLLOW set of its left side. A
table that comes about has in each cell an item that claims it, each claim meets its own production in
its cell, and no state can shift a lookahead that one of its items claims.
-/
namespace SimpleLR

namespace ReduceTable

variable {g : Grammar} {f : Facts} {number : Nat} {s : State}

/-- The cells that an item claims, each with the item: none unless it is complete. -/
def claimsOf (g : Grammar) (f : Facts) (i : Item) : List (Item × Lookahead) :=
  if i.isComplete g then (f.follow i.lhs).toList.map (i, ·) else []

/-- The claims of the items of a state, in the order in which they are met. -/
def claims (g : Grammar) (f : Facts) (items : List Item) : List (Item × Lookahead) :=
  items.flatMap (claimsOf g f)

theorem mem_claims {items : List Item} {i : Item} {la : Lookahead} :
    (i, la) ∈ claims g f items ↔ i ∈ items ∧ i.isComplete g = true ∧ la ∈ f.follow i.lhs := by
  simp only [claims, claimsOf, List.mem_flatMap]
  constructor
  · rintro ⟨j, hj, h⟩
    split at h
    · rename_i hc
      obtain ⟨la', hla, heq⟩ := List.mem_map.mp h
      obtain ⟨rfl, rfl⟩ := Prod.mk.inj heq
      exact ⟨hj, hc, hla⟩
    · exact absurd h List.not_mem_nil
  · rintro ⟨hi, hc, hla⟩
    use i, hi
    rw [if_pos hc]
    exact List.mem_map.mpr ⟨la, hla, rfl⟩

/-- Gives a claim its cell. -/
def placeClaim (g : Grammar) (number : Nat) (s : State) (row : Row) (c : Item × Lookahead) :
    Except TableError Row :=
  place g number s c.1 row c.2

/-- The grammar has the production of the item, and the facts have the left side if it is complete. -/
def Known (g : Grammar) (f : Facts) (i : Item) : Prop :=
  (∃ p, g.production? i.production = some p) ∧
    (i.isComplete g = true → ∃ follow, f.follow? i.lhs = some follow)

theorem placeItem_eq {i : Item} (hi : Known g f i) (row : Row) :
    placeItem g f number s row i = (claimsOf g f i).foldlM (placeClaim g number s) row := by
  obtain ⟨⟨p, hp⟩, hfollow⟩ := hi
  have hc : i.isComplete g = decide (i.dot = p.rhs.length) := by
    simp [Item.isComplete, Item.rhs?, hp]
  simp only [placeItem, hp, claimsOf, hc, decide_eq_true_eq]
  by_cases hd : i.dot = p.rhs.length
  · obtain ⟨follow, hf⟩ := hfollow (by simpa [hc] using hd)
    have hset : f.follow i.lhs = follow := by
      simp only [Facts.follow?] at hf
      simp [Facts.follow, Follow.setOf, Array.getD_eq_getD_getElem?, hf]
    simp only [if_pos hd, hf, hset, List.foldlM_map]
    rfl
  · simp only [if_neg hd]
    rfl

theorem known_of_placeItem {i : Item} {row row' : Row}
    (h : placeItem g f number s row i = .ok row') : Known g f i := by
  rw [placeItem] at h
  split at h
  · contradiction
  · rename_i p hp
    constructor
    · exact ⟨p, hp⟩
    intro hc
    have hd : i.dot = p.rhs.length := by
      simpa [Item.isComplete, Item.rhs?, hp] using hc
    rw [if_pos hd] at h
    split at h
    · contradiction
    · rename_i follow hf
      exact ⟨follow, hf⟩

theorem foldlM_placeItem_eq {items : List Item} (hi : ∀ i ∈ items, Known g f i) (row : Row) :
    items.foldlM (placeItem g f number s) row =
      (claims g f items).foldlM (placeClaim g number s) row := by
  induction items generalizing row with
  | nil => rfl
  | cons i items ih =>
    have hrest := ih fun j hj => hi j (List.mem_cons_of_mem i hj)
    have hclaims : claims g f (i :: items) = claimsOf g f i ++ claims g f items := rfl
    rw [List.foldlM_cons, placeItem_eq (hi i List.mem_cons_self), hclaims, List.foldlM_append]
    simp only [hrest]

theorem known_of_foldlM {items : List Item} {row row' : Row}
    (h : items.foldlM (placeItem g f number s) row = .ok row') : ∀ i ∈ items, Known g f i := by
  apply foldlM_ok_induction (fun done _ => ∀ i ∈ done, Known g f i) _ [] (by simp) h
  intro done i r r' hdone hr j hj
  rcases List.mem_append.mp hj with hj | hj
  · exact hdone j hj
  · exact List.mem_singleton.mp hj ▸ known_of_placeItem hr

theorem conflict?_eq_none {cell : Option Item} {i : Item} {la : Lookahead} :
    conflict? number s cell i la = none ↔
      (∀ j ∈ cell, j.production = i.production) ∧ s.shift? la = none := by
  have hfilter : cell.filter (·.production ≠ i.production) = none ↔
      ∀ j ∈ cell, j.production = i.production := by
    cases cell <;> simp [Option.filter]
  rw [← hfilter]
  unfold conflict?
  cases hother : cell.filter (·.production ≠ i.production) with
  | some other => simp
  | none =>
    cases la with
    | endOfInput => simp [State.shift?]
    | terminal code => cases hs : s.shift? (.terminal code) <;> simp

/-- A claim takes its cell unless the cell has another production or the state can shift there. -/
theorem placeClaim_eq_ok {row row' : Row} {i : Item} {la : Lookahead} :
    placeClaim g number s row (i, la) = .ok row' ↔
      ∃ cell, row[la.column g.symbolCount]? = some cell ∧
        (∀ j ∈ cell, j.production = i.production) ∧ s.shift? la = none ∧
        row' = row.setIfInBounds (la.column g.symbolCount) (some i) := by
  simp only [placeClaim, place]
  cases hcell : row[la.column g.symbolCount]? with
  | none => simp
  | some cell =>
    cases hc : conflict? number s cell i la with
    | some c =>
      simp only [hc, reduceCtorEq, Option.some.injEq, false_iff, not_exists, not_and]
      rintro _ rfl hj hs -
      rw [conflict?_eq_none.mpr ⟨hj, hs⟩] at hc
      contradiction
    | none =>
      obtain ⟨hj, hs⟩ := conflict?_eq_none.mp hc
      simp only [hc, Except.ok.injEq, Option.some.injEq, exists_eq_left']
      constructor
      · rintro rfl
        exact ⟨hj, hs, rfl⟩
      · rintro ⟨-, -, rfl⟩
        rfl

/-- What holds of a row in which some claims have been given their cells. -/
structure Filled (g : Grammar) (s : State) (done : List (Item × Lookahead)) (row : Row) : Prop where
  size : row.size = g.symbolCount + 1
  /-- What stands in a cell claims it. -/
  claimed : ∀ (k : Nat) (i : Item), row[k]? = some (some i) →
    ∃ la, (i, la) ∈ done ∧ la.column g.symbolCount = k
  /-- Each claim meets its own production in its cell. -/
  placed : ∀ i la, (i, la) ∈ done →
    ∃ j, row[la.column g.symbolCount]? = some (some j) ∧ j.production = i.production
  free : ∀ i la, (i, la) ∈ done → s.shift? la = none

theorem filled_nil : Filled g s [] (Array.replicate (g.symbolCount + 1) none) where
  size := by simp
  claimed k i h := by
    rw [Array.getElem?_replicate] at h
    split at h <;> simp at h
  placed _ _ h := absurd h List.not_mem_nil
  free _ _ h := absurd h List.not_mem_nil

theorem Filled.placeClaim {done : List (Item × Lookahead)} {row row' : Row} {c : Item × Lookahead}
    (hrow : Filled g s done row) (h : placeClaim g number s row c = .ok row') :
    Filled g s (done ++ [c]) row' := by
  obtain ⟨i, la⟩ := c
  obtain ⟨cell, hcell, hj, hs, rfl⟩ := placeClaim_eq_ok.mp h
  have hlt := (Array.getElem?_eq_some_iff.mp hcell).1
  constructor
  · simpa using hrow.size
  · intro k j hk
    rw [Array.getElem?_setIfInBounds] at hk
    split at hk
    · rename_i heq
      obtain rfl := Option.some.inj (Option.some.inj hk)
      exact ⟨la, by simp, heq⟩
    · obtain ⟨lb, hmem, hcol⟩ := hrow.claimed k j hk
      exact ⟨lb, List.mem_append_left _ hmem, hcol⟩
  · intro j lb hmem
    rw [Array.getElem?_setIfInBounds]
    rcases List.mem_append.mp hmem with hmem | hmem
    · obtain ⟨j', hj', hprod⟩ := hrow.placed j lb hmem
      split
      · rename_i heq
        rw [← heq, hcell] at hj'
        exact ⟨i, rfl, (hj j' (Option.some.inj hj')).symm.trans hprod⟩
      · exact ⟨j', hj', hprod⟩
    · obtain ⟨rfl, rfl⟩ := Prod.mk.inj (List.mem_singleton.mp hmem)
      simp [hlt]
  · intro j lb hmem
    rcases List.mem_append.mp hmem with hmem | hmem
    · exact hrow.free j lb hmem
    · obtain ⟨rfl, rfl⟩ := Prod.mk.inj (List.mem_singleton.mp hmem)
      exact hs

theorem filled_of_fillRow {row : Row} (h : fillRow g f number s = .ok row) :
    Filled g s (claims g f s.items.toList) row := by
  rw [fillRow] at h
  rw [foldlM_placeItem_eq (known_of_foldlM h)] at h
  exact foldlM_ok_induction (Filled g s) (fun _ _ _ _ hrow hc => hrow.placeClaim hc) [] filled_nil h

variable {states : Array State} {t : ReduceTable}

theorem build_eq (states : Array State) :
    ReduceTable.build g f states =
      (states.toList.zipIdx.mapM fun c => fillRow g f c.2 c.1).map (⟨g.symbolCount, ·.toArray⟩) := by
  rw [ReduceTable.build]
  cases states.toList.zipIdx.mapM fun c => fillRow g f c.2 c.1 <;> rfl

theorem build_rows (h : ReduceTable.build g f states = .ok t) :
    t.symbolCount = g.symbolCount ∧
      List.Forall₂ (fun (c : State × Nat) row => fillRow g f c.2 c.1 = .ok row)
        states.toList.zipIdx t.rows.toList := by
  rw [build_eq] at h
  cases hm : states.toList.zipIdx.mapM fun c => fillRow g f c.2 c.1 with
  | error e =>
    rw [hm] at h
    contradiction
  | ok rows =>
    rw [hm] at h
    obtain rfl := Except.ok.inj h
    exact ⟨rfl, by simpa using mapM_ok hm⟩

/-- The row of each state is filled by its claims. -/
theorem build_filled (h : ReduceTable.build g f states = .ok t) {n : Nat} {row : Row}
    (hrow : t.rows[n]? = some row) :
    ∃ s, states[n]? = some s ∧ Filled g s (claims g f s.items.toList) row := by
  obtain ⟨-, hrows⟩ := build_rows h
  obtain ⟨hlt, rfl⟩ := Array.getElem?_eq_some_iff.mp hrow
  have hlen := hrows.length_eq
  simp only [List.length_zipIdx, Array.length_toList] at hlen
  have hfill := hrows.get (i := n) (by simpa [hlen] using hlt) (by simpa using hlt)
  simp only [List.get_eq_getElem, List.getElem_zipIdx, Array.getElem_toList, Nat.zero_add] at hfill
  exact ⟨_, Array.getElem?_eq_getElem (hlen ▸ hlt), filled_of_fillRow hfill⟩

theorem build_size (h : ReduceTable.build g f states = .ok t) : t.rows.size = states.size := by
  simpa using (build_rows h).2.length_eq.symm

/-- What stands in a cell claims it. -/
theorem claim_of_get? (h : ReduceTable.build g f states = .ok t) {n : Nat} {la : Lookahead} {i : Item}
    (hi : t.get? n la = some i) :
    ∃ s lb, states[n]? = some s ∧ (i, lb) ∈ claims g f s.items.toList ∧
      lb.column g.symbolCount = la.column g.symbolCount := by
  simp only [get?, Option.join_eq_some_iff, Option.bind_eq_some_iff] at hi
  obtain ⟨row, hrow, hcell⟩ := hi
  obtain ⟨s, hs, hfilled⟩ := build_filled h hrow
  rw [(build_rows h).1] at hcell
  obtain ⟨lb, hmem, hcolumn⟩ := hfilled.claimed _ i hcell
  exact ⟨s, lb, hs, hmem, hcolumn⟩

/-- What stands in a cell is a complete item of the state. -/
theorem mem_of_get? (h : ReduceTable.build g f states = .ok t) {n : Nat} {la : Lookahead} {i : Item}
    (hi : t.get? n la = some i) :
    ∃ s, states[n]? = some s ∧ i ∈ s.items ∧ i.isComplete g = true := by
  obtain ⟨s, lb, hs, hmem, -⟩ := claim_of_get? h hi
  obtain ⟨hi, hc, -⟩ := mem_claims.mp hmem
  exact ⟨s, hs, hi, hc⟩

/-- The cell of a claim has the item's production, and the state cannot shift there. -/
theorem get?_of_claim (h : ReduceTable.build g f states = .ok t) {n : Nat} {s : State}
    (hs : states[n]? = some s) {i : Item} (hi : i ∈ s.items) (hc : i.isComplete g = true)
    {la : Lookahead} (hla : la ∈ f.follow i.lhs) :
    (∃ j, t.get? n la = some j ∧ j.production = i.production) ∧ s.shift? la = none := by
  have hlt : n < t.rows.size := build_size h ▸ (Array.getElem?_eq_some_iff.mp hs).1
  obtain ⟨s', hs', hfilled⟩ := build_filled h (Array.getElem?_eq_getElem hlt)
  rw [hs] at hs'
  obtain rfl := Option.some.inj hs'
  have hmem := mem_claims.mpr ⟨hi, hc, hla⟩
  obtain ⟨j, hj, hprod⟩ := hfilled.placed i la hmem
  have hget : t.get? n la = some j := by
    rw [get?, Array.getElem?_eq_getElem hlt, (build_rows h).1]
    simp [hj]
  exact ⟨⟨j, hget, hprod⟩, hfilled.free i la hmem⟩

end ReduceTable

end SimpleLR
