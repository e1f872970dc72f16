import SimpleLR.Proofs.Automaton.Cells

/-!
# The first conflict

Filling a table meets the states by their numbers, the items of a state in ascending order, and the
lookaheads of an item in ascending order as well. Whatever has been met got its cell, so the conflict that
ends it all is that of the least claim which is at odds with an earlier item or with a shift.
-/
namespace SimpleLR

namespace ReduceTable

/-- An item of a state claims the cell of a lookahead. -/
structure Claim where
  state : Nat
  item : Item
  lookahead : Lookahead

namespace Claim

/-- Claims go by state, then by item, then by lookahead. -/
instance : Ord Claim :=
  ⟨compareLex (compareOn state) (compareLex (compareOn item) (compareOn lookahead))⟩

instance : Std.TransOrd Claim :=
  inferInstanceAs (Std.TransCmp
    (compareLex (compareOn state) (compareLex (compareOn item) (compareOn lookahead))))

theorem compare_eq_lt {c d : Claim} : compare c d = .lt ↔ c.state < d.state ∨
    c.state = d.state ∧ (compare c.item d.item = .lt ∨
      c.item = d.item ∧ compare c.lookahead d.lookahead = .lt) := by
  have hunfold : compare c d = (compare c.state d.state).then
      ((compare c.item d.item).then (compare c.lookahead d.lookahead)) := rfl
  simp [hunfold, Ordering.then_eq_lt, Nat.compare_eq_lt]

end Claim

variable {g : Grammar} {f : Facts} {n : Nat} {s : State}

/-- The state has a candidate for the lookahead that comes before the item. -/
def Ahead (g : Grammar) (f : Facts) (s : State) (la : Lookahead) (i j : Item) : Prop :=
  Candidate g f s la j ∧ compare j i = .lt

/-- A candidate is at odds with an earlier one of another production, or with a shift. -/
def Bad (g : Grammar) (f : Facts) (c : Claim) : Prop :=
  ∃ s, g.states[c.state]? = some s ∧ Candidate g f s c.lookahead c.item ∧
    ((∃ j, Ahead g f s c.lookahead c.item j ∧ j.production ≠ c.item.production) ∨
      ∃ code t, c.lookahead = .terminal code ∧ s.transition? code = some t)

/-- What is reported of a claim: the one earlier candidate if there is any, and otherwise the shift. -/
inductive Reported (g : Grammar) (f : Facts) (c : Claim) : Conflict → Prop
  | reduceReduce {s : State} {j : Item} (hs : g.states[c.state]? = some s)
      (hj : Ahead g f s c.lookahead c.item j)
      (sole : ∀ k, Ahead g f s c.lookahead c.item k → k = j) :
      Reported g f c (.reduceReduce c.state j.production c.item.production c.lookahead)
  | shiftReduce {s : State} {code t : Nat} (hs : g.states[c.state]? = some s)
      (alone : ∀ k, ¬Ahead g f s c.lookahead c.item k) (hla : c.lookahead = .terminal code)
      (ht : s.transition? code = some t) :
      Reported g f c (.shiftReduce c.state c.item.production code t)

theorem item_of_mem_claimsOf {i : Item} {c : Item × Lookahead} (h : c ∈ claimsOf g f i) : c.1 = i := by
  rw [claimsOf] at h
  split at h
  · obtain ⟨la, -, rfl⟩ := List.mem_map.mp h
    rfl
  · exact absurd h List.not_mem_nil

/-- The claims of a state are met in ascending order. -/
theorem claims_ascending (n : Nat) (items : ItemSet) : (claims g f items.toList).Pairwise fun a b =>
    compare (⟨n, a.1, a.2⟩ : Claim) ⟨n, b.1, b.2⟩ = .lt := by
  rw [claims, List.pairwise_flatMap]
  constructor
  · intro i _
    rw [claimsOf]
    split
    · rw [List.pairwise_map]
      apply (f.follow i.lhs).ascending.imp
      intro la lb hlt
      exact Claim.compare_eq_lt.mpr (.inr ⟨rfl, .inr ⟨rfl, hlt⟩⟩)
    · exact .nil
  · apply items.ascending.imp
    intro i j hlt a ha b hb
    rw [Claim.compare_eq_lt, item_of_mem_claimsOf ha, item_of_mem_claimsOf hb]
    exact .inr ⟨rfl, .inl hlt⟩

section

variable {done left : List (Item × Lookahead)}

/-- Whatever comes before a claim that has been met has been met as well. -/
theorem mem_done_of_lt (hclaims : claims g f s.items.toList = done ++ left) {a b : Item × Lookahead}
    (ha : a ∈ done) (hb : b ∈ claims g f s.items.toList)
    (hlt : compare (⟨n, b.1, b.2⟩ : Claim) ⟨n, a.1, a.2⟩ = .lt) : b ∈ done := by
  have hascending := claims_ascending (g := g) (f := f) n s.items
  rw [hclaims] at hb hascending
  by_contra hno
  have hgt := (List.pairwise_append.mp hascending).2.2 a ha b
    ((List.mem_append.mp hb).resolve_left hno)
  rw [Std.OrientedCmp.gt_iff_lt.mpr hgt] at hlt
  contradiction

/-- What has been met is what comes before the next claim. -/
theorem mem_done_iff {c : Item × Lookahead} (hclaims : claims g f s.items.toList = done ++ c :: left)
    (n : Nat) {b : Item × Lookahead} : b ∈ done ↔
      b ∈ claims g f s.items.toList ∧ compare (⟨n, b.1, b.2⟩ : Claim) ⟨n, c.1, c.2⟩ = .lt := by
  constructor
  · intro hb
    have hascending := claims_ascending (g := g) (f := f) n s.items
    rw [hclaims] at hascending ⊢
    exact ⟨List.mem_append_left _ hb,
      (List.pairwise_append.mp hascending).2.2 b hb c List.mem_cons_self⟩
  · rintro ⟨hb, hlt⟩
    rw [List.append_cons] at hclaims
    have hmet : b ∈ done ++ [c] := mem_done_of_lt hclaims (by simp) hb hlt
    rcases List.mem_append.mp hmet with hmet | hmet
    · exact hmet
    · simp [List.mem_singleton.mp hmet] at hlt

variable {row : Row} (hrow : Filled g s done row)

include hrow

/-- The claims that have been met on one lookahead are of one production. -/
theorem Filled.production_eq {i j : Item} {la : Lookahead} (hi : (i, la) ∈ done)
    (hj : (j, la) ∈ done) : i.production = j.production := by
  obtain ⟨k, hk, hki⟩ := hrow.placed i la hi
  obtain ⟨l, hl, hlj⟩ := hrow.placed j la hj
  rw [hk] at hl
  obtain rfl := Option.some.inj (Option.some.inj hl)
  exact hki.symm.trans hlj

/-- What has got its cell is not bad. -/
theorem Filled.not_bad (hclaims : claims g f s.items.toList = done ++ left)
    (hs : g.states[n]? = some s) {i : Item} {la : Lookahead} (hi : (i, la) ∈ done) :
    ¬Bad g f ⟨n, i, la⟩ := by
  rintro ⟨s', hs', -, hodds⟩
  obtain rfl := Option.mem_unique hs hs'
  rcases hodds with ⟨j, ⟨hj, hlt⟩, hne⟩ | ⟨code, t, hla, ht⟩
  · have hbefore : compare (⟨n, j, la⟩ : Claim) ⟨n, i, la⟩ = .lt :=
      Claim.compare_eq_lt.mpr (.inr ⟨rfl, .inl hlt⟩)
    have hmet : (j, la) ∈ done := mem_done_of_lt hclaims hi (mem_claims.mpr hj) hbefore
    exact hne (hrow.production_eq hmet hi)
  · obtain rfl : la = .terminal code := hla
    have hfree : s.transition? code = none := hrow.free i _ hi
    rw [ht] at hfree
    contradiction

end

section

variable (hf : f.Covers g)

include hf

/-- A row is refused for the least of its bad claims. -/
theorem fillRow_first_conflict (hs : g.states[n]? = some s) {e : TableError}
    (h : fillRow g f n s = .error e) : ∃ i la c, e = .conflict c ∧ Bad g f ⟨n, i, la⟩ ∧
      Reported g f ⟨n, i, la⟩ c ∧
      ∀ j lb, compare (⟨n, j, lb⟩ : Claim) ⟨n, i, la⟩ = .lt → ¬Bad g f ⟨n, j, lb⟩ := by
  obtain ⟨done, i, la, left, row, hclaims, hrow, hrefused⟩ :=
    fillRow_refused (known_of_state hf hs) (below_of_mem_follow hf) h
  have hi : Candidate g f s la i := mem_claims.mp (hclaims ▸ by simp)
  have hahead : ∀ k, Ahead g f s la i k ↔ (k, la) ∈ done := by
    intro k
    rw [mem_done_iff hclaims n, mem_claims, Claim.compare_eq_lt]
    simp [Ahead, Candidate, OrdSet.mem_iff]
  have hleast : ∀ j lb, compare (⟨n, j, lb⟩ : Claim) ⟨n, i, la⟩ = .lt → ¬Bad g f ⟨n, j, lb⟩ := by
    intro j lb hlt hbad
    obtain ⟨s', hs', hj, -⟩ := id hbad
    obtain rfl := Option.mem_unique hs hs'
    have hmet : (j, lb) ∈ done := (mem_done_iff hclaims n).mpr ⟨mem_claims.mpr hj, hlt⟩
    exact hrow.not_bad hclaims hs hmet hbad
  -- Complete items of one state and of one production are the same, so no two candidates are alike.
  have heq : ∀ k, Ahead g f s la i k → ∀ j, Candidate g f s la j → k.production = j.production →
      k = j := by
    intro k hk j hj hprod
    exact Grammar.complete_inj hs hk.1.1 hj.1 hk.1.2.1 hj.2.1 hprod
  rcases hrefused with ⟨j, hmet, hne, rfl⟩ | ⟨hsame, code, t, rfl, ht, rfl⟩
  · have hj : Ahead g f s la i j := (hahead j).mpr hmet
    refine ⟨i, la, _, rfl, ⟨s, hs, hi, .inl ⟨j, hj, hne⟩⟩, .reduceReduce hs hj ?_, hleast⟩
    intro k hk
    exact heq k hk j hj.1 (hrow.production_eq ((hahead k).mp hk) hmet)
  · refine ⟨i, _, _, rfl, ⟨s, hs, hi, .inr ⟨code, t, rfl, ht⟩⟩, .shiftReduce hs ?_ rfl ht, hleast⟩
    intro k hk
    obtain rfl := heq k hk i hi (hsame k ((hahead k).mp hk))
    simpa using hk.2

end

/-- The error is the conflict of the least bad claim, and it names the one earlier candidate if there is
any, and otherwise the shift. -/
theorem build_first_conflict {e : TableError}
    (h : ReduceTable.build g (Facts.ofGrammar g) g.states = .error e) :
    ∃ (m : Claim) (c : Conflict), e = .conflict c ∧ Bad g (Facts.ofGrammar g) m ∧
      (∀ d, Bad g (Facts.ofGrammar g) d → (compare m d).isLE = true) ∧
      Reported g (Facts.ofGrammar g) m c := by
  have hf := Facts.covers_ofGrammar g
  obtain ⟨n, s, hs, hrow, hbefore⟩ := build_first_row h
  obtain ⟨i, la, c, he, hbad, hreported, hleast⟩ := fillRow_first_conflict hf hs hrow
  refine ⟨⟨n, i, la⟩, c, he, hbad, ?_, hreported⟩
  rintro ⟨m, j, lb⟩ hd
  by_contra hno
  have hlt : compare (⟨m, j, lb⟩ : Claim) ⟨n, i, la⟩ = .lt := by
    rw [← Std.OrientedCmp.gt_iff_lt]
    simpa using hno
  rcases Claim.compare_eq_lt.mp hlt with hm | ⟨rfl, -⟩
  · obtain ⟨s', hs', hj, -⟩ := id hd
    obtain ⟨row, hok⟩ := hbefore m s' hs' hm
    exact (filled_of_fillRow hok).not_bad (List.append_nil _).symm hs' (mem_claims.mpr hj) hd
  · exact hleast j lb hlt hd

end ReduceTable

/-- The grammar `S → A | B | B y | x y`, `A → x`, `B → x`, with the codes 0 for `A`, 1 for `B`, 2 for `S`,
4 for `x` and 5 for `y`. -/
def Grammar.overlapping : Grammar where
  name := "overlapping"
  package := ""
  symbols := [⟨"A", []⟩, ⟨"B", []⟩, ⟨"S", []⟩, .augmentedStart, ⟨"x", []⟩, ⟨"y", []⟩]
  augmentedStart := 3
  start := 2
  rules := [⟨1, 2, [0], []⟩, ⟨2, 2, [1], []⟩, ⟨3, 2, [1, 5], []⟩, ⟨4, 2, [4, 5], []⟩,
    ⟨5, 0, [4], []⟩, ⟨6, 1, [4], []⟩]
  start_lt := by decide
  symbols_augmentedStart := rfl
  names_nodup := by decide
  rules_ids := rfl
  rules_sides := by decide

/-- After `x`, both `A` and `B` are candidates at the end of the input, but `y` comes before it: there the
candidate is `B` alone, and the state can shift. -/
theorem ReduceTable.build_first_conflict_overlapping :
    ReduceTable.build .overlapping (Facts.ofGrammar .overlapping) Grammar.overlapping.states =
      .error (.conflict (.shiftReduce 4 6 5 6)) ∧
    ∃ m, Bad .overlapping (Facts.ofGrammar .overlapping) m ∧
      (∀ d, Bad .overlapping (Facts.ofGrammar .overlapping) d → (compare m d).isLE = true) ∧
      Reported .overlapping (Facts.ofGrammar .overlapping) m (.shiftReduce 4 6 5 6) := by
  have herror : ReduceTable.build .overlapping (Facts.ofGrammar .overlapping)
      Grammar.overlapping.states = .error (.conflict (.shiftReduce 4 6 5 6)) := by
    decide +kernel
  obtain ⟨m, c, hc, hbad, hleast, hreported⟩ := build_first_conflict herror
  obtain rfl := TableError.conflict.inj hc
  exact ⟨herror, m, hbad, hleast, hreported⟩

end SimpleLR
