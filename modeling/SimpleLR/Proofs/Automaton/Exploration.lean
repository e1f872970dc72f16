import SimpleLR.Proofs.Item.Closure
import SimpleLR.Automaton.Collection
import Std.Data.TreeMap.Lemmas
import Mathlib.Data.Finset.Powerset
import Mathlib.Data.Fintype.Card

/-!
# The search for states

A search keeps the item sets found and their numbers inverse to each other. The rows of the item sets
that have been tried lead to what each symbol makes of them, and an item set beyond the first was
found from one with a smaller number. There are no more item sets than sets of items of the grammar,
so the search comes to its end.
-/
namespace SimpleLR.Exploration

variable {g : Grammar} {e : Exploration}

/-- Each item set found stands at its number, and only there. -/
def Numbered (e : Exploration) : Prop :=
  ∀ (set : ItemSet) (n : Nat), e.numbers[set]? = some n ↔ e.found[n]? = some set

/-- What was found before stays where it was. -/
def Keeps (e e' : Exploration) : Prop :=
  e'.rows = e.rows ∧ ∀ (n : Nat) (set : ItemSet), e.found[n]? = some set → e'.found[n]? = some set

theorem Keeps.refl (e : Exploration) : e.Keeps e := ⟨rfl, fun _ _ h => h⟩

theorem Keeps.trans {e e' e'' : Exploration} (h : e.Keeps e') (h' : e'.Keeps e'') : e.Keeps e'' :=
  ⟨h'.1.trans h.1, fun n set hn => h'.2 n set (h.2 n set hn)⟩

theorem number_keeps (e : Exploration) (set : ItemSet) : e.Keeps (e.number set).1 := by
  rw [number]
  split
  · exact Keeps.refl e
  · constructor
    · rfl
    intro n s hn
    have hlt : n < e.found.size := (Array.getElem?_eq_some_iff.mp hn).1
    rw [Array.getElem?_push_lt hlt, ← hn, Array.getElem?_eq_getElem hlt]

theorem number_found (he : e.Numbered) (set : ItemSet) :
    (e.number set).1.found[(e.number set).2]? = some set := by
  rw [number]
  split
  · rename_i n hn
    exact (he set n).mp hn
  · simp

/-- A number is given to an item set that is found now, and to no other. -/
theorem found_of_number {set s : ItemSet} {n : Nat} (h : (e.number set).1.found[n]? = some s) :
    e.found[n]? = some s ∨ n = (e.number set).2 ∧ s = set := by
  rw [number] at h ⊢
  split at h
  · exact .inl h
  · simp only [Array.getElem?_push] at h
    split at h
    · rename_i hn
      exact .inr ⟨hn, (Option.some.inj h).symm⟩
    · exact .inl h

theorem number_numbered (he : e.Numbered) (set : ItemSet) : (e.number set).1.Numbered := by
  rw [number]
  split
  · exact he
  · rename_i hnone
    intro s n
    simp only [Std.TreeMap.getElem?_insert, Array.getElem?_push, Std.LawfulEqOrd.compare_eq_iff_eq]
    by_cases hs : set = s
    · subst hs
      by_cases hn : n = e.found.size
      · simp [hn]
      · have hno : e.found[n]? ≠ some set := fun h => by
          rw [(he set n).mpr h] at hnone
          contradiction
        simp [hn, hno]
        omega
    · by_cases hn : n = e.found.size
      · have hno : e.numbers[s]? ≠ some n := fun h => by
          have := (Array.getElem?_eq_some_iff.mp ((he s n).mp h)).1
          omega
        rw [hn] at hno
        simp [hs, hn, hno]
      · simp [hs, hn, he s n]

/-- What the entry of a row says about the moves of an item set on a symbol. -/
def Leads (g : Grammar) (ms : List (Nat × Item)) (e : Exploration) (symbol : Nat) :
    Option Nat → Prop
  | none => movesOn ms symbol = []
  | some n => movesOn ms symbol ≠ [] ∧ e.found[n]? = some (closure g (movesOn ms symbol))

theorem Leads.mono {ms : List (Nat × Item)} {e e' : Exploration} (h : e.Keeps e') {symbol : Nat}
    {entry : Option Nat} (hl : e.Leads g ms symbol entry) : e'.Leads g ms symbol entry := by
  cases entry with
  | none => exact hl
  | some n => exact ⟨hl.1, h.2 n _ hl.2⟩

theorem exists_leads_of_mem {ms : List (Nat × Item)} {symbols : List Nat} {row : List (Option Nat)}
    (h : List.Forall₂ (e.Leads g ms) symbols row) {entry : Option Nat} (hmem : entry ∈ row) :
    ∃ X ∈ symbols, e.Leads g ms X entry := by
  induction h with
  | nil => exact absurd hmem List.not_mem_nil
  | @cons X _ symbols row hl _ ih =>
    rcases List.mem_cons.mp hmem with rfl | hmem
    · exact ⟨X, List.mem_cons_self, hl⟩
    · obtain ⟨Y, hY, hl⟩ := ih hmem
      exact ⟨Y, List.mem_cons_of_mem X hY, hl⟩

/-- What trying some symbols comes to. -/
structure Tried (g : Grammar) (ms : List (Nat × Item)) (symbols : List Nat) (e e' : Exploration)
    (row : List (Option Nat)) : Prop where
  keeps : e.Keeps e'
  numbered : e'.Numbered
  leads : List.Forall₂ (e'.Leads g ms) symbols row
  /-- An item set that is found meanwhile stands in the row. -/
  entered : ∀ (n : Nat) (set : ItemSet), e'.found[n]? = some set →
    e.found[n]? = some set ∨ some n ∈ row
  /-- A number stands in the row behind the smaller ones that were not in use. -/
  inOrder : ∀ before u rest, row = before ++ some u :: rest → ∀ t < u,
    t < e.found.size ∨ some t ∈ before

/-- A number that was not in use stands in the row. -/
theorem Tried.entry_of_new {ms : List (Nat × Item)} {symbols : List Nat} {e' : Exploration}
    {row : List (Option Nat)} (h : Tried g ms symbols e e' row) {t : Nat} {set : ItemSet}
    (ht : e'.found[t]? = some set) (hnew : e.found[t]? ≠ some set) :
    e.found.size ≤ t ∧ some t ∈ row := by
  constructor
  · by_contra hlt
    have hold := h.keeps.2 t _ (Array.getElem?_eq_getElem (Nat.not_le.mp hlt))
    rw [ht] at hold
    exact hnew (Option.some.inj hold ▸ Array.getElem?_eq_getElem (Nat.not_le.mp hlt))
  · exact (h.entered t set ht).resolve_left hnew

theorem lt_or_eq_of_number {set : ItemSet} {t : Nat}
    (ht : t < (e.number set).1.found.size) : t < e.found.size ∨ t = (e.number set).2 := by
  rcases found_of_number (Array.getElem?_eq_getElem ht) with h | ⟨rfl, -⟩
  · exact .inl (Array.getElem?_eq_some_iff.mp h).1
  · exact .inr rfl

theorem tryAll_tried (he : e.Numbered) (ms : List (Nat × Item)) (symbols : List Nat) :
    Tried g ms symbols e (tryAll g ms symbols e).1 (tryAll g ms symbols e).2 := by
  induction symbols generalizing e with
  | nil => exact ⟨Keeps.refl e, he, .nil, fun n set h => .inl h, by simp [tryAll]⟩
  | cons symbol symbols ih =>
    simp only [tryAll]
    split
    · rename_i hnone
      obtain ⟨hkeeps, hnum, hleads, hentered, hinOrder⟩ := ih he
      refine ⟨hkeeps, hnum, .cons hnone hleads, fun n set h =>
        (hentered n set h).imp_right (List.mem_cons_of_mem none), ?_⟩
      intro before u rest hrow t ht
      rcases List.cons_eq_append_iff.mp hrow with ⟨rfl, h⟩ | ⟨before, rfl, h⟩
      · simp at h
      · exact (hinOrder before u rest h t ht).imp_right (List.mem_cons_of_mem none)
    · rename_i i is hsome
      have hnum₁ := number_numbered he (closure g (i :: is))
      obtain ⟨hkeeps, hnum, hleads, hentered, hinOrder⟩ := ih hnum₁
      have hlead : (tryAll g ms symbols (e.number (closure g (i :: is))).1).1.Leads g ms symbol
          (some (e.number (closure g (i :: is))).2) := by
        rw [Leads, hsome]
        exact ⟨List.cons_ne_nil i is, hkeeps.2 _ _ (number_found he _)⟩
      constructor
      · exact (number_keeps e _).trans hkeeps
      · exact hnum
      · exact .cons hlead hleads
      · intro n set h
        rcases hentered n set h with h | h
        · rcases found_of_number h with h | ⟨rfl, rfl⟩
          · exact .inl h
          · exact .inr List.mem_cons_self
        · exact .inr (List.mem_cons_of_mem _ h)
      · intro before u rest hrow t ht
        have hlt := (Array.getElem?_eq_some_iff.mp (number_found he (closure g (i :: is)))).1
        rcases List.cons_eq_append_iff.mp hrow with ⟨rfl, h⟩ | ⟨before, rfl, h⟩
        · obtain rfl := Option.some.inj (List.cons.inj h).1
          exact .inl ((lt_or_eq_of_number (Nat.lt_trans ht hlt)).resolve_right (Nat.ne_of_lt ht))
        · rcases hinOrder before u rest h t ht with hold | hmem
          · rcases lt_or_eq_of_number hold with hold | rfl
            · exact .inl hold
            · exact .inr List.mem_cons_self
          · exact .inr (List.mem_cons_of_mem _ hmem)

/-- What holds of every search for the states of a grammar. -/
structure Sound (g : Grammar) (e : Exploration) : Prop where
  numbered : e.Numbered
  first : e.found[0]? = some (closure g [Item.initial g.startProduction])
  /-- The row of an item set has an entry for each symbol. -/
  tried : ∀ (s : Nat) (row : Array (Option Nat)), e.rows[s]? = some row → ∃ set,
    e.found[s]? = some set ∧
      List.Forall₂ (e.Leads g (moves g set)) (List.range g.symbolCount) row.toList
  /-- An item set beyond the first stands in the row of one with a smaller number. -/
  discovered : ∀ (t : Nat) (set : ItemSet), e.found[t]? = some set → t ≠ 0 →
    ∃ (s : Nat) (row : Array (Option Nat)), s < t ∧ e.rows[s]? = some row ∧ some t ∈ row.toList
  /-- The rows in a row show each number behind all smaller ones but 0. -/
  inOrder : ∀ (s : Nat) (row : Array (Option Nat)) before u rest, e.rows[s]? = some row →
    row.toList = before ++ some u :: rest → ∀ t < u, t ≠ 0 → some t ∈ before ∨
      ∃ r < s, ∃ row' : Array (Option Nat), e.rows[r]? = some row' ∧ some t ∈ row'.toList
  belongsTo : ∀ (t : Nat) (set : ItemSet), e.found[t]? = some set → ∀ i ∈ set, i.BelongsTo g

theorem sound_start (g : Grammar) : (start g).Sound g := by
  have hempty : (⟨#[], {}, #[]⟩ : Exploration).Numbered := fun set n => by simp
  have hzero : (start g).found[0]? = some (closure g [Item.initial g.startProduction]) := by
    simp [start, number]
  have honly : ∀ (t : Nat) (set : ItemSet), (start g).found[t]? = some set →
      t = 0 ∧ set = closure g [Item.initial g.startProduction] := by
    intro t set h
    have hsize : (start g).found.size = 1 := by simp [start, number]
    have ht : t = 0 := by
      have := (Array.getElem?_eq_some_iff.mp h).1
      omega
    subst ht
    rw [hzero] at h
    exact ⟨rfl, (Option.some.inj h).symm⟩
  constructor
  · exact number_numbered hempty _
  · exact hzero
  · intro s row h
    rw [show (start g).rows = #[] from (number_keeps _ _).1] at h
    simp at h
  · intro t set h ht
    exact absurd (honly t set h).1 ht
  · intro s row before u rest h
    rw [show (start g).rows = #[] from (number_keeps _ _).1] at h
    simp at h
  · intro t set h i hi
    obtain ⟨-, rfl⟩ := honly t set h
    apply (mem_closure.mp hi).belongsTo
    intro j hj
    obtain rfl := List.mem_singleton.mp hj
    exact Production.itemAt_belongsTo List.mem_cons_self (Nat.zero_le _)

/-- A step tries the first item set that has no row. -/
theorem step_eq_some (he : e.Numbered) {t : Exploration} (h : e.step g = some t) : ∃ set e' row,
    e.found[e.rows.size]? = some set ∧
      Tried g (moves g set) (List.range g.symbolCount) e e' row ∧
      t = ⟨e'.found, e'.numbers, e.rows.push row.toArray⟩ := by
  rw [step] at h
  split at h
  · contradiction
  · rename_i set hset
    have htried := tryAll_tried (g := g) he (moves g set) (List.range g.symbolCount)
    refine ⟨set, _, _, hset, htried, ?_⟩
    rw [← htried.keeps.1]
    exact (Option.some.inj h).symm

theorem Sound.step {t : Exploration} (he : e.Sound g) (h : e.step g = some t) : t.Sound g := by
  obtain ⟨set, e', row, hset, htried, rfl⟩ := step_eq_some he.numbered h
  have hfound := htried.keeps.2
  have hkept : ∀ {r : Nat} {row' : Array (Option Nat)}, e.rows[r]? = some row' →
      (e.rows.push row.toArray)[r]? = some row' := fun hr' => by
    rw [Array.getElem?_push_lt (Array.getElem?_eq_some_iff.mp hr').1, ← Array.getElem?_eq_getElem, hr']
  constructor
  · exact htried.numbered
  · exact hfound _ _ he.first
  · intro s r hr
    simp only [Array.getElem?_push] at hr
    split at hr
    · rename_i hlast
      obtain rfl := Option.some.inj hr
      exact ⟨set, hlast ▸ hfound _ _ hset, htried.leads⟩
    · obtain ⟨s', hs', hl⟩ := he.tried s r hr
      exact ⟨s', hfound _ _ hs', hl.imp fun X entry => Leads.mono htried.keeps⟩
  · intro t s hs ht
    by_cases hold : e.found[t]? = some s
    · obtain ⟨s', r, hlt, hr, hmem⟩ := he.discovered t s hold ht
      exact ⟨s', r, hlt, hkept hr, hmem⟩
    · obtain ⟨hge, hmem⟩ := htried.entry_of_new hs hold
      have := (Array.getElem?_eq_some_iff.mp hset).1
      exact ⟨e.rows.size, row.toArray, by omega, by simp, by simpa using hmem⟩
  · intro s r before u rest hr hrow t ht h0
    simp only [Array.getElem?_push] at hr
    split at hr
    · rename_i hlast
      obtain rfl := Option.some.inj hr
      rcases htried.inOrder before u rest (by simpa using hrow) t ht with hold | hmem
      · obtain ⟨s', r', -, hr', hmem⟩ := he.discovered t _ (Array.getElem?_eq_getElem hold) h0
        exact .inr ⟨s', hlast ▸ (Array.getElem?_eq_some_iff.mp hr').1, r', hkept hr', hmem⟩
      · exact .inl hmem
    · exact (he.inOrder s r before u rest hr hrow t ht h0).imp_right
        fun ⟨s', hlt, r', hr', hmem⟩ => ⟨s', hlt, r', hkept hr', hmem⟩
  · intro t s hs i hi
    by_cases hold : e.found[t]? = some s
    · exact he.belongsTo t s hold i hi
    · obtain ⟨X, -, hl⟩ := exists_leads_of_mem htried.leads (htried.entry_of_new hs hold).2
      have hs' := hl.2
      simp only at hs
      rw [hs] at hs'
      obtain rfl := Option.some.inj hs'
      exact (mem_closure.mp hi).belongsTo (movesOn_belongsTo (he.belongsTo _ _ hset))

/-! The bound. -/

theorem allItems_length (g : Grammar) : g.allItems.length = g.itemCount := by
  rw [Grammar.allItems, Grammar.itemCount]
  induction g.productions with
  | nil => rfl
  | cons p ps ih => simp [ih]

theorem Sound.found_inj (he : e.Sound g) {s t : Nat} {set : ItemSet}
    (hs : e.found[s]? = some set) (ht : e.found[t]? = some set) : s = t := by
  have := (he.numbered set s).mpr hs
  rw [(he.numbered set t).mpr ht] at this
  exact (Option.some.inj this).symm

/-- No two item sets found are equal, so there are no more of them than sets of items. -/
theorem Sound.found_size_le (he : e.Sound g) : e.found.size ≤ 2 ^ g.itemCount := by
  let contents : Fin e.found.size → Finset Item := fun s => e.found[s].toList.toFinset
  have hinj : Function.Injective contents := by
    intro s t h
    have hsets : e.found[s] = e.found[t] := by
      apply OrdSet.ext
      intro i
      rw [OrdSet.mem_iff, OrdSet.mem_iff, ← List.mem_toFinset, ← List.mem_toFinset]
      exact Finset.ext_iff.mp h i
    have ht := (Array.getElem?_eq_getElem t.isLt).trans (congrArg some hsets.symm)
    exact Fin.ext (he.found_inj (Array.getElem?_eq_getElem s.isLt) ht)
  have hsub : Finset.univ.image contents ⊆ g.allItems.toFinset.powerset := by
    intro c hc
    obtain ⟨s, -, rfl⟩ := Finset.mem_image.mp hc
    apply Finset.mem_powerset.mpr
    intro i hi
    apply List.mem_toFinset.mpr
    apply Grammar.mem_allItems.mpr
    exact he.belongsTo s _ (Array.getElem?_eq_getElem s.isLt) i (List.mem_toFinset.mp hi)
  have hcard := Finset.card_le_card hsub
  rw [Finset.card_image_of_injective _ hinj, Finset.card_univ, Fintype.card_fin,
    Finset.card_powerset] at hcard
  apply hcard.trans
  apply Nat.pow_le_pow_right (by decide)
  exact (List.toFinset_card_le _).trans (allItems_length g).le

theorem Sound.rows_size_le (he : e.Sound g) : e.rows.size ≤ e.found.size := by
  by_contra hlt
  obtain ⟨set, hset, -⟩ := he.tried e.found.size _ (Array.getElem?_eq_getElem (Nat.not_le.mp hlt))
  simp at hset

/-- The search for the states, taken to its bound. -/
def complete (g : Grammar) : Exploration := iterate (step g) (Nat.pow 2 g.itemCount) (start g)

theorem sound_complete (g : Grammar) : (complete g).Sound g :=
  iterate_induction (Sound g) (fun _ _ he h => he.step h) _ (sound_start g)

/-- A step adds a row. -/
theorem rows_size_of_endsAfter {n : Nat} {e' : Exploration} (h : EndsAfter (step g) n e e')
    (he : e.Sound g) : e'.rows.size = e.rows.size + n := by
  induction h with
  | ended _ => rfl
  | next h _ ih =>
    rw [ih (he.step h)]
    obtain ⟨set, e', row, -, -, rfl⟩ := step_eq_some he.numbered h
    simp only [Array.size_push]
    omega

/-- The search comes to its end within the bound, with a step for each row. -/
theorem endsAfter_complete (g : Grammar) :
    EndsAfter (step g) (complete g).rows.size (start g) (complete g) := by
  have hlowers : ∀ e t : Exploration, e.Sound g → e.step g = some t →
      2 ^ g.itemCount - t.rows.size < 2 ^ g.itemCount - e.rows.size := by
    intro e t he h
    have hle := (he.step h).rows_size_le.trans (he.step h).found_size_le
    obtain ⟨set, e', row, -, -, rfl⟩ := step_eq_some he.numbered h
    simp only [Array.size_push] at hle ⊢
    omega
  obtain ⟨n, -, hends⟩ := iterate_endsAfter (Sound g) (fun _ _ he h => he.step h)
    (fun e => 2 ^ g.itemCount - e.rows.size) hlowers (sound_start g) (Nat.sub_le (2 ^ g.itemCount) _)
  have hrows := rows_size_of_endsAfter hends (sound_start g)
  rw [show (start g).rows = #[] from (number_keeps _ _).1, Array.size_empty, Nat.zero_add] at hrows
  exact hrows ▸ hends

/-- Every item set that the search finds is tried within the bound. -/
theorem step_complete (g : Grammar) : (complete g).step g = none :=
  (endsAfter_complete g).step_eq_none

theorem found_size_complete (g : Grammar) : (complete g).found.size = (complete g).rows.size := by
  have hnone := step_complete g
  rw [step] at hnone
  split at hnone
  · rename_i h
    exact Nat.le_antisymm (Array.getElem?_eq_none_iff.mp h) (sound_complete g).rows_size_le
  · contradiction

end SimpleLR.Exploration
