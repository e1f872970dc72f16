import SimpleLR.Proofs.Automaton.Numbering

/-!
# States in the order of their discovery

Each state beyond the first is entered first at some place, by a symbol from a state with a smaller number,
and these places ascend with the numbers of the states. Who reads the rows of all states one after another
meets the numbers 1, 2, 3 and so on, each for the first time when its turn has come. No other numbers of the
same states have this property.
-/
namespace SimpleLR

variable {states states' : Array State} {s t u X : Nat} {p q : Nat × Nat}

/-- The least place at which a state is entered. -/
structure IsFirst (states : Array State) (t : Nat) (p : Nat × Nat) : Prop where
  enters : target? states p.1 p.2 = some t
  least : ∀ s X, target? states s X = some t → (s, X) = p ∨ Before p (s, X)

/-- Where a state is entered first comes before where a state with a greater number is. -/
def FirstsAscend (states : Array State) : Prop :=
  ∀ t u p q, t ≠ 0 → t < u → IsFirst states t p → IsFirst states u q → Before p q

/-- The numbers in the rows of all states, one row after another. -/
def reading (states : Array State) : List Nat :=
  states.toList.flatMap fun st => st.targets.toList.filterMap id

/-! First entries. -/

theorem before_trichotomy (p q : Nat × Nat) : Before p q ∨ q = p ∨ Before q p := by
  simp only [Prod.lex_def, Prod.ext_iff]
  omega

theorem exists_isFirst (h : target? states s X = some t) : ∃ p, IsFirst states t p := by
  obtain ⟨p, hp, hmin⟩ := before_wellFounded.has_min
    {p : Nat × Nat | target? states p.1 p.2 = some t} ⟨(s, X), h⟩
  refine ⟨p, hp, fun r Y hr => ?_⟩
  rcases before_trichotomy p (r, Y) with hbefore | heq | hbefore
  · exact .inr hbefore
  · exact .inl heq
  · exact absurd hbefore (hmin (r, Y) hr)

theorem IsFirst.fst_le (h : IsFirst states t p) (ht : target? states s X = some t) : p.1 ≤ s := by
  rcases h.least s X ht with rfl | hbefore
  · exact Nat.le_refl _
  · exact Before.le hbefore

theorem BreadthFirst.exists_first (h : BreadthFirst states) (ht : t < states.size) (h0 : t ≠ 0) :
    ∃ p, IsFirst states t p ∧ p.1 < t := by
  obtain ⟨s, hlt, X, hX⟩ := h.entered t ht h0
  obtain ⟨p, hp⟩ := exists_isFirst hX
  exact ⟨p, hp, Nat.lt_of_le_of_lt (hp.fst_le hX) hlt⟩

theorem BreadthFirst.firstsAscend (h : BreadthFirst states) : FirstsAscend states := by
  intro t u p q h0 htu hp hq
  obtain ⟨r, Y, hbefore, hY⟩ := h.inOrder hq.enters htu h0
  rcases hp.least r Y hY with rfl | hp
  · exact hbefore
  · exact hp.trans hbefore

/-! Other numbers. -/

/-- Up to each number there is a transition, in states that match others: one from a smaller number to it or
a greater one. -/
theorem Matches.exists_crossing {σ : Nat → Nat} (h : Matches states states' id σ)
    (hs : BreadthFirst states) (ht : t ≠ 0) {x : Nat} (hx : x < states.size) (htx : t ≤ σ x) :
    ∃ r < t, ∃ Y u, target? states' r Y = some u ∧ t ≤ u := by
  induction x using Nat.strongRecOn with
  | ind x ih =>
    have h0 : x ≠ 0 := by
      rintro rfl
      rw [h.zero] at htx
      omega
    obtain ⟨s, hlt, X, hX⟩ := hs.entered x hx h0
    have hs' : s < states.size := Nat.lt_trans hlt hx
    by_cases hts : t ≤ σ s
    · exact ih s hlt hs' hts
    · have htarget := h.target s hs' X
      rw [hX] at htarget
      exact ⟨σ s, Nat.not_le.mp hts, X, σ x, htarget, htx⟩

theorem Matches.target_lt {σ : Nat → Nat} (h : Matches states states' id σ) (hs : BreadthFirst states)
    (ht : target? states' s X = some t) : t < states'.size := by
  obtain ⟨st, hst, -⟩ := target?_eq_some.mp ht
  obtain ⟨r, hr, rfl⟩ := h.bijOn.surjOn (Array.getElem?_eq_some_iff.mp hst).1
  have htarget := h.target r hr X
  rw [id_eq, ht] at htarget
  obtain ⟨u, hu, rfl⟩ := Option.map_eq_some_iff.mp htarget.symm
  exact h.bijOn.mapsTo (hs.target_lt hu)

/-- States that match others are numbered in the order in which they are entered if their first entries
ascend. -/
theorem Matches.breadthFirst {σ : Nat → Nat} (h : Matches states states' id σ)
    (hs : BreadthFirst states) (hascend : FirstsAscend states') : BreadthFirst states' := by
  have hfirst : ∀ t < states'.size, t ≠ 0 → ∃ p, IsFirst states' t p := by
    intro t ht h0
    obtain ⟨x, hx, rfl⟩ := h.bijOn.surjOn ht
    have hx0 : x ≠ 0 := by
      rintro rfl
      exact h0 h.zero
    obtain ⟨s, hlt, X, hX⟩ := hs.entered x hx hx0
    have htarget := h.target s (Nat.lt_trans hlt hx) X
    rw [hX] at htarget
    exact exists_isFirst htarget
  refine ⟨h.target_lt hs, ?_, ?_⟩
  · intro t ht h0
    obtain ⟨p, hp⟩ := hfirst t ht h0
    obtain ⟨x, hx, rfl⟩ := h.bijOn.surjOn ht
    -- What crosses into the numbers from `σ x` on is entered there no earlier than `σ x` itself.
    obtain ⟨r, hr, Y, u, hu, hle⟩ := h.exists_crossing hs h0 hx (Nat.le_refl _)
    obtain ⟨q, hq⟩ := exists_isFirst hu
    have hpq : p.1 ≤ q.1 := by
      rcases Nat.eq_or_lt_of_le hle with heq | hlt
      · exact hp.fst_le (heq ▸ hq.enters)
      · exact Before.le (hascend _ u p q h0 hlt hp hq)
    exact ⟨p.1, Nat.lt_of_le_of_lt (hpq.trans (hq.fst_le hu)) hr, p.2, hp.enters⟩
  · intro s X t u hu htu h0
    obtain ⟨p, hp⟩ := hfirst t (Nat.lt_trans htu (h.target_lt hs hu)) h0
    obtain ⟨q, hq⟩ := exists_isFirst hu
    have hpq := hascend t u p q h0 htu hp hq
    refine ⟨p.1, p.2, ?_, hp.enters⟩
    rcases hq.least s X hu with heq | hbefore
    · exact heq ▸ hpq
    · exact hpq.trans hbefore

/-! The reading. -/

theorem mem_of_eraseDups_eq_range' {l : List Nat} {n x : Nat} (h : l.eraseDups = List.range' 1 n) :
    x ∈ l ↔ 1 ≤ x ∧ x < 1 + n := by
  rw [← List.mem_eraseDups, h, List.mem_range'_1]

/-- What a list shows for the first time is 1, 2, 3 and so on if it shows each number behind all smaller
ones. -/
theorem eraseDups_eq_range' {l : List Nat} (hzero : 0 ∉ l)
    (h : ∀ before u rest, l = before ++ u :: rest → ∀ t < u, t ≠ 0 → t ∈ before) :
    ∃ n, l.eraseDups = List.range' 1 n := by
  -- By induction from the back, since whether a number is new depends on those before it.
  induction l using List.reverseRecOn with
  | nil => exact ⟨0, rfl⟩
  | append_singleton l u ih =>
    obtain ⟨n, hn⟩ := ih (fun hmem => hzero (List.mem_append_left _ hmem))
      fun before v rest hl => h before v (rest ++ [u]) (by simp [hl])
    rw [List.eraseDups_append, hn]
    by_cases hu : u ∈ l
    · exact ⟨n, by simp [List.removeAll, hu]⟩
    · have hu0 : u ≠ 0 := by
        rintro rfl
        exact hzero (by simp)
      have hun : u = 1 + n := by
        have hsmaller := h l u [] rfl (1 + n)
        rw [mem_of_eraseDups_eq_range' hn] at hu hsmaller
        omega
      have hnew : ([u].removeAll l).eraseDups = [u] := by simp [List.removeAll, hu, List.eraseDups_cons]
      use n + 1
      rw [hnew, List.range'_concat, Nat.one_mul, hun]

/-- An element of a flattened list stands in one of the parts, behind the parts before it. -/
theorem split_of_flatMap {α β : Type} {f : α → List β} {l : List α} {before rest : List β} {b : β}
    (h : l.flatMap f = before ++ b :: rest) :
    ∃ l₁ a l₂ x y, l = l₁ ++ a :: l₂ ∧ f a = x ++ b :: y ∧ before = l₁.flatMap f ++ x := by
  induction l generalizing before with
  | nil => simp at h
  | cons a l ih =>
    rw [List.flatMap_cons, List.append_eq_append_iff] at h
    rcases h with ⟨x, rfl, h⟩ | ⟨x, hfa, h⟩
    · obtain ⟨l₁, c, l₂, y, z, rfl, hc, rfl⟩ := ih h
      exact ⟨a :: l₁, c, l₂, y, z, rfl, hc, by simp⟩
    · cases x with
      | nil =>
        have hsplit : l.flatMap f = [] ++ b :: rest := h.symm
        obtain ⟨l₁, c, l₂, y, z, rfl, hc, hbefore⟩ := ih hsplit
        refine ⟨a :: l₁, c, l₂, y, z, rfl, hc, ?_⟩
        rw [List.flatMap_cons, List.append_assoc, ← hbefore, hfa]
        simp
      | cons d x =>
        obtain ⟨rfl, -⟩ := List.cons.inj h
        exact ⟨[], a, l, before, x, rfl, hfa, rfl⟩

theorem mem_reading : t ∈ reading states ↔ ∃ s X, target? states s X = some t := by
  simp only [reading, List.mem_flatMap, Array.mem_toList_iff, Array.mem_iff_getElem?, target?_eq_some,
    List.mem_filterMap, id_eq, exists_eq_right, State.transition?_eq_some]
  constructor
  · rintro ⟨st, ⟨s, hs⟩, X, hX⟩
    exact ⟨s, X, st, hs, hX⟩
  · rintro ⟨s, X, st, hs, hX⟩
    exact ⟨st, ⟨s, hs⟩, X, hX⟩

/-- A number in the reading is entered at some place, and what is entered at the places before this one
stands before it. -/
theorem place_of_reading {before rest : List Nat} (h : reading states = before ++ u :: rest) :
    ∃ s X, target? states s X = some u ∧
      ∀ r Y, Before (r, Y) (s, X) → ∀ t, target? states r Y = some t → t ∈ before := by
  obtain ⟨l₁, st, l₂, x, y, hl, hrow, rfl⟩ := split_of_flatMap h
  obtain ⟨m₁, m₂, htargets, rfl, hrest⟩ := List.filterMap_eq_append_iff.mp hrow
  obtain ⟨n₁, entry, n₂, rfl, hnone, rfl, -⟩ := List.filterMap_eq_cons_iff.mp hrest
  have hs : states[l₁.length]? = some st := by simp [← Array.getElem?_toList, hl]
  have hentry : ∀ Y, st.targets[Y]? = (m₁ ++ n₁ ++ some u :: n₂)[Y]? := fun Y => by
    rw [← Array.getElem?_toList, htargets, List.append_assoc]
  refine ⟨l₁.length, (m₁ ++ n₁).length, target?_eq_some.mpr ⟨st, hs, ?_⟩, ?_⟩
  · rw [State.transition?_eq_some, hentry]
    simp
  · intro r Y hbefore t ht
    obtain ⟨st', hr, hY⟩ := target?_eq_some.mp ht
    rw [State.transition?_eq_some] at hY
    rcases Prod.lex_def.mp hbefore with hlt | ⟨rfl, hlt⟩
    · apply List.mem_append_left
      rw [← Array.getElem?_toList, hl, List.getElem?_append_left hlt] at hr
      apply List.mem_flatMap.mpr
      refine ⟨st', List.mem_of_getElem? hr, List.mem_filterMap.mpr ⟨some t, ?_, rfl⟩⟩
      exact Array.mem_toList_iff.mpr (Array.mem_of_getElem? hY)
    · apply List.mem_append_right
      obtain rfl : st = st' := Option.some.inj (hs.symm.trans hr)
      rw [hentry, List.getElem?_append_left hlt] at hY
      rcases List.mem_append.mp (List.mem_of_getElem? hY) with hmem | hmem
      · exact List.mem_filterMap.mpr ⟨some t, hmem, rfl⟩
      · exact absurd (hnone _ hmem) (by simp)

theorem BreadthFirst.eraseDups_reading (h : BreadthFirst states) (hzero : 0 ∉ reading states) :
    (reading states).eraseDups = List.range' 1 (states.size - 1) := by
  obtain ⟨n, hn⟩ := eraseDups_eq_range' hzero (by
    intro before u rest hsplit t htu h0
    obtain ⟨s, X, hX, hbefore⟩ := place_of_reading hsplit
    obtain ⟨r, Y, hlt, hY⟩ := h.inOrder hX htu h0
    exact hbefore r Y hlt t hY)
  have hlt : ∀ t ∈ reading states, t < states.size := by
    intro t ht
    obtain ⟨s, X, hX⟩ := mem_reading.mp ht
    exact h.target_lt hX
  have hge : ∀ t < states.size, t ≠ 0 → t ∈ reading states := by
    intro t ht h0
    obtain ⟨s, -, X, hX⟩ := h.entered t ht h0
    exact mem_reading.mpr ⟨s, X, hX⟩
  have hsize : n = states.size - 1 := by
    have h₁ := hge (states.size - 1)
    have h₂ := hlt n
    rw [mem_of_eraseDups_eq_range' hn] at h₁ h₂
    omega
  rw [hn, hsize]

/-! The states of a grammar. -/

namespace Grammar

variable {g : Grammar}

/-- Nothing leads to state 0, where all dots stand at the beginning. -/
theorem states_target_ne_zero (h : target? g.states s X = some t) : t ≠ 0 := by
  rintro rfl
  obtain ⟨st, hs, hX⟩ := target?_eq_some.mp h
  obtain ⟨st', hzero, hitems, i, hi, hnext⟩ := states_target hs hX
  have hmem : i.advance ∈ st'.items := by
    rw [hitems]
    exact closure_given (mem_movesOn.mpr ⟨i, hi, hnext, rfl⟩)
  rw [items_zero hzero, mem_closure] at hmem
  have hdot : ∀ j, Calls g [g.startProduction.itemAt 0] j → j.dot = 0 := by
    intro j hj
    cases hj with
    | given hj => rw [List.mem_singleton.mp hj]; rfl
    | predicted _ hj =>
      obtain ⟨p, -, -, rfl⟩ := mem_predictions.mp hj
      rfl
  exact absurd (hdot _ hmem) (Nat.succ_ne_zero i.dot)

/-- The states of a grammar are numbered in the order of their discovery, and there are no other numbers for
them with this property that leave state 0 as it is. -/
theorem states_discovered (g : Grammar) :
    (∀ t < g.states.size, t ≠ 0 → ∃ p, IsFirst g.states t p ∧ p.1 < t) ∧
    FirstsAscend g.states ∧
    (reading g.states).eraseDups = List.range' 1 (g.states.size - 1) ∧
    ∀ (states : Array State) (σ : Nat → Nat), Matches g.states states id σ → FirstsAscend states →
      ∀ t < g.states.size, σ t = t := by
  have hstates := g.states_breadthFirst
  have hzero : 0 ∉ reading g.states := by
    intro hmem
    obtain ⟨s, X, hX⟩ := mem_reading.mp hmem
    exact states_target_ne_zero hX rfl
  refine ⟨fun t => hstates.exists_first, hstates.firstsAscend, hstates.eraseDups_reading hzero, ?_⟩
  intro states σ hmatches hascend
  exact hmatches.eq_self hstates (hmatches.breadthFirst hstates hascend)

/-- The five states of the grammar `S → a S b | ε`, matched with themselves. -/
theorem states_discovered_balanced :
    Matches balanced.states balanced.states id id ∧ FirstsAscend balanced.states ∧
      (∀ t < balanced.states.size, id t = t) ∧
      (reading balanced.states).eraseDups = [1, 2, 3, 4] := by
  have hself : Matches balanced.states balanced.states id id :=
    ⟨rfl, Set.bijOn_id _, fun s _ X => Option.map_id_apply.symm⟩
  obtain ⟨-, hascend, hreading, hunique⟩ := states_discovered balanced
  have hsize : balanced.states.size = 5 := by decide +kernel
  rw [hsize] at hreading
  exact ⟨hself, hascend, hunique balanced.states id hself hascend, hreading⟩

end Grammar

end SimpleLR
