import SimpleLR.Proofs.Automaton.Chains
import SimpleLR.Proofs.Automaton.Numbering
import SimpleLR.Proofs.Embedding.Basic

/-!
# States of embedded grammars

The states of an embedded grammar and those of the other one are reached by the same strings, up to the
codes, and hold the same items, up to the ids: a production is open behind a string in one grammar just
when its counterpart is in the other one. So one collection of states is the other one by another name.
-/
namespace SimpleLR

/-- The states hold each other's items by other codes and ids. -/
def SameItems (code id : Nat → Nat) (st st' : State) : Prop :=
  ∀ i', i' ∈ st'.items ↔ ∃ i ∈ st.items, i' = i.renamed code id

namespace Embedding

variable {g h : Grammar} (e : Embedding g h)

/-! Open productions. -/

theorem renamed_rhs {p : Production} {d X : Nat} (hd : p.rhs[d]? = some X) :
    (p.renamed e.code e.id).rhs[d]? = some (e.code X) := by
  simp [Production.renamed, hd]

theorem drop_renamed_rhs (p : Production) (d : Nat) :
    (p.renamed e.code e.id).rhs.drop d = (p.rhs.drop d).map e.code := by
  rw [List.map_drop]
  rfl

theorem open_renamed {γ ω : List Nat} {p : Production} {d : Nat} (ho : g.Open γ p d ω) :
    h.Open (γ.map e.code) (p.renamed e.code e.id) d (ω.map e.code) := by
  induction ho with
  | start =>
    rw [← e.start]
    exact .start
  | call _ hq hd ih =>
    rw [List.map_append, ← e.drop_renamed_rhs]
    exact ih.call (e.mem _ hq) (e.renamed_rhs hd)
  | read _ hd ih => exact ih.read (e.renamed_rhs hd)

/-- A production that is called for is reachable. -/
theorem reachable_of_open {γ ω : List Nat} {p : Production} {d X : Nat} (ho : h.Open γ p d ω)
    (hd : p.rhs[d]? = some X) : h.Reachable X := by
  refine ⟨γ.reverse, p.rhs.drop (d + 1) ++ ω, ?_⟩
  simpa [Grammar.Open.drop_eq hd] using ho.derives

/-- Whatever is open in the other grammar is the counterpart of what is open in the embedded one. -/
theorem exists_open {γ' ω' : List Nat} {p' : Production} {d : Nat} (ho : h.Open γ' p' d ω') :
    ∃ γ p ω, γ' = γ.map e.code ∧ p' = p.renamed e.code e.id ∧ ω' = ω.map e.code ∧
      g.Open γ p d ω := by
  induction ho with
  | start => exact ⟨[], g.startProduction, [], rfl, e.start, rfl, .start⟩
  | @call _ _ _ q' d ho hq hd ih =>
    obtain ⟨q, hq', rfl⟩ := e.covers q' hq (reachable_of_open ho hd)
    obtain ⟨γ, p, ω, rfl, rfl, rfl, ho'⟩ := ih
    obtain ⟨X, hX, hcode⟩ := Option.map_eq_some_iff.mp ((List.getElem?_map ..).symm.trans hd)
    obtain rfl := e.code.injective hcode
    exact ⟨γ, q, p.rhs.drop (d + 1) ++ ω, rfl, rfl, by rw [List.map_append, e.drop_renamed_rhs],
      ho'.call hq' hX⟩
  | read _ hd ih =>
    obtain ⟨γ, p, ω, rfl, rfl, rfl, ho'⟩ := ih
    obtain ⟨X, hX, hcode⟩ := Option.map_eq_some_iff.mp ((List.getElem?_map ..).symm.trans hd)
    exact ⟨X :: γ, p, ω, by simp [hcode], rfl, rfl, ho'.read hX⟩

/-! Items. -/

theorem renamed_inj {i j : Item} (hi : i.BelongsTo g) (hj : j.BelongsTo g)
    (hij : i.renamed e.code e.id = j.renamed e.code e.id) : i = j := by
  obtain ⟨p, hp, d, -, rfl⟩ := hi
  obtain ⟨q, hq, d', -, rfl⟩ := hj
  obtain ⟨hid, hdot, -⟩ := Item.mk.inj hij
  exact (Production.itemAt_inj hp hq).mpr ⟨e.id_inj p hp q hq hid, hdot⟩

theorem renamed_next? {i : Item} (hi : i.BelongsTo g) :
    (i.renamed e.code e.id).next? h = (i.next? g).map e.code := by
  obtain ⟨p, hp, d, -, rfl⟩ := hi
  rw [← Production.renamed_itemAt, Production.itemAt_next? (e.mem p hp), Production.itemAt_next? hp]
  exact List.getElem?_map

theorem renamed_isComplete {i : Item} (hi : i.BelongsTo g) :
    (i.renamed e.code e.id).isComplete h = i.isComplete g := by
  obtain ⟨p, hp, d, -, rfl⟩ := hi
  rw [← Production.renamed_itemAt, Bool.eq_iff_iff, Production.itemAt_isComplete (e.mem p hp),
    Production.itemAt_isComplete hp]
  simp [Production.renamed]

/-! States. -/

/-- The states are reached by one string, up to the codes. -/
def Pairs (s s' : Nat) : Prop :=
  ∃ below below' γ, g.Spells (s :: below) γ ∧ h.Spells (s' :: below') (γ.map e.code)

variable {s s' t t' : Nat} {st st' : State}

theorem pairs_zero : e.Pairs 0 0 := ⟨[], [], [], .bottom, .bottom⟩

theorem exists_pairs (hs : g.states[s]? = some st) : ∃ s', e.Pairs s s' := by
  obtain ⟨below, γ, hσ⟩ := Grammar.exists_spells hs
  obtain ⟨i, hi⟩ := Grammar.states_nonempty hs
  obtain ⟨p, d, ω, -, ho⟩ := hσ.exists_open hs hi
  obtain ⟨stack, hσ'⟩ := (e.open_renamed ho).exists_spells
  obtain ⟨s', below', -, rfl, -⟩ := hσ'.exists_top
  exact ⟨s', below, below', γ, hσ, hσ'⟩

theorem exists_pairs_left (hs : h.states[s']? = some st') : ∃ s, e.Pairs s s' := by
  obtain ⟨below', γ', hσ'⟩ := Grammar.exists_spells hs
  obtain ⟨i, hi⟩ := Grammar.states_nonempty hs
  obtain ⟨p', d, ω', -, ho'⟩ := hσ'.exists_open hs hi
  obtain ⟨γ, p, ω, rfl, -, -, ho⟩ := e.exists_open ho'
  obtain ⟨stack, hσ⟩ := ho.exists_spells
  obtain ⟨s, below, -, rfl, -⟩ := hσ.exists_top
  exact ⟨s, below, below', γ, hσ, hσ'⟩

variable {e}

theorem Pairs.sameItems (hp : e.Pairs s s') (hs : g.states[s]? = some st)
    (hs' : h.states[s']? = some st') : SameItems e.code e.id st st' := by
  obtain ⟨below, below', γ, hσ, hσ'⟩ := hp
  intro i'
  constructor
  · intro hi'
    obtain ⟨p', d, ω', rfl, ho'⟩ := hσ'.exists_open hs' hi'
    obtain ⟨γ₀, p, ω, hγ, rfl, rfl, ho⟩ := e.exists_open ho'
    obtain rfl := e.map_inj.mp hγ
    exact ⟨p.itemAt d, ho.itemAt_mem hσ hs, rfl⟩
  · rintro ⟨i, hi, rfl⟩
    obtain ⟨p, d, ω, rfl, ho⟩ := hσ.exists_open hs hi
    exact (e.open_renamed ho).itemAt_mem hσ' hs'

theorem Pairs.exists_left (hp : e.Pairs s s') : ∃ st, g.states[s]? = some st := by
  obtain ⟨_, _, _, hσ, -⟩ := hp
  obtain ⟨_, _, st, hstack, hs⟩ := hσ.exists_top
  exact ⟨st, (List.cons.inj hstack).1 ▸ hs⟩

theorem Pairs.exists_right (hp : e.Pairs s s') : ∃ st', h.states[s']? = some st' := by
  obtain ⟨_, _, _, -, hσ⟩ := hp
  obtain ⟨_, _, st, hstack, hs⟩ := hσ.exists_top
  exact ⟨st, (List.cons.inj hstack).1 ▸ hs⟩

/-- States with the same items are the same, so a state has one counterpart only. -/
theorem Pairs.right_unique (hp : e.Pairs s s') (hp' : e.Pairs s t') : s' = t' := by
  obtain ⟨st, hs⟩ := hp.exists_left
  obtain ⟨st', hs'⟩ := hp.exists_right
  obtain ⟨tt', ht'⟩ := hp'.exists_right
  apply Grammar.states_inj hs' ht'
  apply OrdSet.ext
  intro i
  rw [hp.sameItems hs hs' i, hp'.sameItems hs ht' i]

theorem mem_items_iff (hsame : SameItems e.code e.id st st') (hs : g.states[s]? = some st) {i : Item}
    (hi : i.BelongsTo g) : i.renamed e.code e.id ∈ st'.items ↔ i ∈ st.items := by
  rw [hsame]
  constructor
  · rintro ⟨j, hj, hij⟩
    rwa [e.renamed_inj hi (Grammar.states_belongsTo hs hj) hij]
  · exact fun hi => ⟨i, hi, rfl⟩

theorem Pairs.left_unique (hp : e.Pairs s s') (hp' : e.Pairs t s') : s = t := by
  obtain ⟨st, hs⟩ := hp.exists_left
  obtain ⟨tt, ht⟩ := hp'.exists_left
  obtain ⟨st', hs'⟩ := hp.exists_right
  apply Grammar.states_inj hs ht
  apply OrdSet.ext
  intro i
  have hsame := hp.sameItems hs hs'
  have hsame' := hp'.sameItems ht hs'
  constructor
  · intro hi
    have hi' := Grammar.states_belongsTo hs hi
    exact (mem_items_iff hsame' ht hi').mp ((mem_items_iff hsame hs hi').mpr hi)
  · intro hi
    have hi' := Grammar.states_belongsTo ht hi
    exact (mem_items_iff hsame hs hi').mp ((mem_items_iff hsame' ht hi').mpr hi)

/-- A transition of a state is one of its counterpart. -/
theorem Pairs.target (hp : e.Pairs s s') {X : Nat} (ht : target? g.states s X = some t) :
    ∃ t', target? h.states s' (e.code X) = some t' ∧ e.Pairs t t' := by
  obtain ⟨st, hs, hX⟩ := target?_eq_some.mp ht
  obtain ⟨st', hs'⟩ := hp.exists_right
  obtain ⟨-, -, -, i, hi, hnext⟩ := Grammar.states_target hs hX
  have hi' := (mem_items_iff (hp.sameItems hs hs') hs (Grammar.states_belongsTo hs hi)).mpr hi
  have hnext' : (i.renamed e.code e.id).next? h = some (e.code X) := by
    rw [e.renamed_next? (Grammar.states_belongsTo hs hi), hnext]
    rfl
  obtain ⟨t', ht'⟩ := Grammar.states_transition hs' hi' hnext'
  obtain ⟨below, below', γ, hσ, hσ'⟩ := hp
  exact ⟨t', target?_eq_some.mpr ⟨st', hs', ht'⟩, _, _, _, hσ.push hs hX, hσ'.push hs' ht'⟩

/-- And the counterpart has no other ones. -/
theorem Pairs.target_left (hp : e.Pairs s s') {X : Nat} (ht : target? h.states s' (e.code X) = some t') :
    ∃ t, target? g.states s X = some t := by
  obtain ⟨st', hs', hX⟩ := target?_eq_some.mp ht
  obtain ⟨st, hs⟩ := hp.exists_left
  obtain ⟨-, -, -, i', hi', hnext⟩ := Grammar.states_target hs' hX
  obtain ⟨i, hi, rfl⟩ := (hp.sameItems hs hs' i').mp hi'
  rw [e.renamed_next? (Grammar.states_belongsTo hs hi)] at hnext
  obtain ⟨Y, hY, hcode⟩ := Option.map_eq_some_iff.mp hnext
  obtain rfl := e.code.injective hcode
  obtain ⟨t, ht⟩ := Grammar.states_transition hs hi hY
  exact ⟨t, target?_eq_some.mpr ⟨st, hs, ht⟩⟩

theorem Pairs.target_none (hp : e.Pairs s s') {X : Nat} (ht : target? g.states s X = none) :
    target? h.states s' (e.code X) = none := by
  by_contra hne
  obtain ⟨t', ht'⟩ := Option.ne_none_iff_exists'.mp hne
  obtain ⟨t, htarget⟩ := hp.target_left ht'
  rw [ht] at htarget
  contradiction

variable (e)

/-- The states of the embedded grammar are those of the other one by another name. -/
theorem exists_matches : ∃ σ, Matches g.states h.states e.code σ ∧
    ∀ s < g.states.size, e.Pairs s (σ s) := by
  have hpairs : ∀ s, ∃ s', s < g.states.size → e.Pairs s s' := by
    intro s
    by_cases hs : s < g.states.size
    · obtain ⟨s', hs'⟩ := e.exists_pairs (Array.getElem?_eq_getElem hs)
      exact ⟨s', fun _ => hs'⟩
    · exact ⟨0, fun h => absurd h hs⟩
  choose σ hσ using hpairs
  have hzero : 0 < g.states.size := by
    obtain ⟨st, hst, -⟩ := g.states_zero
    exact (Array.getElem?_eq_some_iff.mp hst).1
  refine ⟨σ, ⟨?_, ⟨?_, ?_, ?_⟩, ?_⟩, hσ⟩
  · exact (hσ 0 hzero).right_unique e.pairs_zero
  · intro s hs
    obtain ⟨st', hst'⟩ := (hσ s hs).exists_right
    exact (Array.getElem?_eq_some_iff.mp hst').1
  · intro s hs t ht hst
    exact (hσ s hs).left_unique (hst ▸ hσ t ht)
  · intro s' hs'
    obtain ⟨s, hp⟩ := e.exists_pairs_left (Array.getElem?_eq_getElem hs')
    obtain ⟨st, hst⟩ := hp.exists_left
    have hs := (Array.getElem?_eq_some_iff.mp hst).1
    exact ⟨s, hs, (hσ s hs).right_unique hp⟩
  · intro s hs X
    cases ht : target? g.states s X with
    | some t =>
      obtain ⟨t', ht', hp⟩ := (hσ s hs).target ht
      obtain rfl := (hσ t (g.states_breadthFirst.target_lt ht)).right_unique hp
      exact ht'
    | none => exact (hσ s hs).target_none ht

end Embedding

end SimpleLR
