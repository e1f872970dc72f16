import SimpleLR.Proofs.Embedding.Reordering
import SimpleLR.Proofs.Embedding.Tables

/-!
# Tables of reordered grammars

The order of the declarations settles the numbers of the states and the order in which items, symbols and
productions are gone through. None of this shows in the tables but for the codes, the ids and the numbers
themselves: either both of two reordered grammars have tables or none of them has, and the tables
correspond to each other.
-/
namespace SimpleLR

/-- The automata are each other's by other codes and ids and by other numbers of the states, with so many
symbols. -/
structure Automaton.Corresponds (code id σ : Nat → Nat) (symbolCount : Nat) (a a' : Automaton) :
    Prop where
  states : Matches a.states a'.states code σ
  items : ∀ (s : Nat) (st st' : State), a.states[s]? = some st → a'.states[σ s]? = some st' →
    SameItems code id st st'
  accepting : a'.accepting = a.accepting.map σ
  cells : ∀ s < a.states.size, ∀ la : Lookahead, la.Below symbolCount →
    a'.reduces.get? (σ s) (la.renamed code) = (a.reduces.get? s la).map (Item.renamed code id)

theorem Lookahead.Below.renamed {m n : Nat} {code : Nat → Nat} (hcode : ∀ c, code c < n ↔ c < m)
    {la : Lookahead} (h : la.Below m) : (la.renamed code).Below n := by
  intro c hc
  cases la with
  | endOfInput => contradiction
  | terminal d =>
    obtain rfl := Lookahead.terminal.inj hc
    exact (hcode d).mpr (h d rfl)

theorem Lookahead.renamed_symm (code : Equiv.Perm Nat) (la : Lookahead) :
    (la.renamed code).renamed code.symm = la := by
  cases la <;> simp [Lookahead.renamed]

namespace Reordering

variable {g h : Grammar}

/-- Counterparts are so both ways. -/
theorem pairs_symm {ρ : Reordering g h} {s s' : Nat} (hp : ρ.embedding.Pairs s s') :
    ρ.symm.embedding.Pairs s' s := by
  obtain ⟨below, below', γ, hσ, hσ'⟩ := hp
  refine ⟨below', below, γ.map ρ.code, hσ', ?_⟩
  have hγ : (γ.map ρ.code).map ρ.code.symm = γ := by simp
  exact hγ.symm ▸ hσ

/-- Either both grammars have tables or none of them has. -/
theorem exists_build_iff (ρ : Reordering g h) :
    (∃ t, Tables.build g = .ok t) ↔ ∃ t, Tables.build h = .ok t :=
  ⟨ρ.symm.embedding.exists_build, ρ.embedding.exists_build⟩

section

variable (ρ : Reordering g h) {t t' : Tables} (ht : Tables.build g = .ok t)
  (ht' : Tables.build h = .ok t')

include ht ht'

/-- What a cell holds is what its counterpart holds. -/
theorem get?_eq {s s' : Nat} (hp : ρ.embedding.Pairs s s') {la : Lookahead}
    (hla : la.Below g.symbolCount) : t'.automaton.reduces.get? s' (la.renamed ρ.code) =
      (t.automaton.reduces.get? s la).map (Item.renamed ρ.code ρ.id) := by
  cases hcell : t.automaton.reduces.get? s la with
  | some i => exact Embedding.get?_renamed ht ht' hp hla hcell
  | none =>
    -- An item in the other cell would have its own counterpart in this one.
    by_contra hne
    obtain ⟨i', hi'⟩ := Option.ne_none_iff_exists'.mp hne
    have hla' : (la.renamed ρ.code).Below h.symbolCount :=
      hla.renamed ρ.embedding.lt_symbolCount
    have hback : (la.renamed ρ.code).renamed ρ.symm.embedding.code = la :=
      la.renamed_symm ρ.code
    have hcell' := Embedding.get?_renamed ht' ht (pairs_symm hp) hla' hi'
    rw [hback, hcell] at hcell'
    contradiction

theorem corresponds :
    ∃ σ, Automaton.Corresponds ρ.code ρ.id σ g.symbolCount t.automaton t'.automaton := by
  have ha := (Tables.build_eq_ok ht).2
  have ha' := (Tables.build_eq_ok ht').2
  have hstates := Automaton.states_of_build ha
  have hstates' := Automaton.states_of_build ha'
  obtain ⟨σ, hσ, hpairs⟩ := ρ.embedding.exists_matches
  refine ⟨σ, ?_, ?_, ?_, ?_⟩
  · rw [hstates, hstates']
    exact hσ
  · intro s st st' hs hs'
    rw [hstates] at hs
    rw [hstates'] at hs'
    exact (hpairs s (Array.getElem?_eq_some_iff.mp hs).1).sameItems hs hs'
  · obtain ⟨s, hs⟩ := Automaton.exists_accepting ha
    have hp := hpairs s (Automaton.accepting_lt ha hs)
    rw [hs]
    exact (Embedding.accepting_iff ht ht' hp).mpr hs
  · intro s hs la hla
    rw [hstates] at hs
    exact ρ.get?_eq ht ht' (hpairs s hs) hla

/-- The recognizers accept the same inputs with the same reductions. -/
theorem accepts_iff (states states' : List Nat) (stats stats' : Stats) (w r : List Nat) :
    (t.recognizer states stats).Accepts w r ↔
      (t'.recognizer states' stats').Accepts (w.map ρ.code) (r.map ρ.id) := by
  have haccepts : (t'.recognizer states' stats').Accepts (w.map ρ.code) (r.map ρ.id) ↔
      ∃ r₀, r.map ρ.id = r₀.map ρ.id ∧ (t.recognizer states stats).Accepts w r₀ :=
    Embedding.accepts_iff (e := ρ.embedding) ht ht' states states' stats stats' w (r.map ρ.id)
  have hmap : Function.Injective (List.map ρ.id) := List.map_injective_iff.mpr ρ.id.injective
  rw [haccepts]
  simp [hmap.eq_iff]

end

end Reordering

/-- Grammars that list the same symbols and productions in another order and have the same start symbol
are each other's by other codes and ids. By any such codes and ids, either both grammars have tables or
none of them has, their automata correspond to each other, and their recognizers accept the same inputs
with the same reductions. -/
theorem Outline.Reorders.tables_agree {g h : Grammar} (hr : g.outline.Reorders h.outline) :
    Nonempty (Reordering g h) ∧ ∀ ρ : Reordering g h,
      ((∃ t, Tables.build g = .ok t) ↔ ∃ t', Tables.build h = .ok t') ∧
      ∀ t t', Tables.build g = .ok t → Tables.build h = .ok t' →
        (∃ σ, Automaton.Corresponds ρ.code ρ.id σ g.symbolCount t.automaton t'.automaton) ∧
        ∀ states states' stats stats' w r, (t.recognizer states stats).Accepts w r ↔
          (t'.recognizer states' stats').Accepts (w.map ρ.code) (r.map ρ.id) := by
  refine ⟨hr.exists_reordering, fun ρ => ⟨ρ.exists_build_iff, fun t t' ht ht' => ⟨?_, ?_⟩⟩⟩
  · exact ρ.corresponds ht ht'
  · exact ρ.accepts_iff ht ht'

/-- The grammar `S → a S b | ε` with the useless rule, declared the other way round. -/
def Grammar.balancedReversed : Grammar where
  name := "balanced"
  package := ""
  symbols := [⟨"U", []⟩, ⟨"S", []⟩, .augmentedStart, ⟨"b", []⟩, ⟨"a", []⟩]
  augmentedStart := 2
  start := 1
  rules := [⟨1, 0, [4, 0], []⟩, ⟨2, 1, [], []⟩, ⟨3, 1, [4, 1, 3], []⟩]
  start_lt := by decide
  symbols_augmentedStart := rfl
  names_nodup := by decide
  rules_ids := rfl
  rules_sides := by decide

theorem Outline.Reorders.tables_agree_balanced :
    Grammar.balanced.outline.Reorders Grammar.balancedReversed.outline ∧
      ∃ (ρ : Reordering .balanced .balancedReversed) (t t' : Tables) (σ : Nat → Nat),
        Tables.build .balanced = .ok t ∧ Tables.build .balancedReversed = .ok t' ∧
        Automaton.Corresponds ρ.code ρ.id σ 5 t.automaton t'.automaton ∧
        (t.recognizer [] .zero).Accepts [3, 4] [2, 1] ∧
        (t'.recognizer [] .zero).Accepts ([3, 4].map ρ.code) ([2, 1].map ρ.id) := by
  have hr : Grammar.balanced.outline.Reorders Grammar.balancedReversed.outline :=
    ⟨(List.reverse_perm _).symm, (List.reverse_perm _).symm, (List.reverse_perm _).symm, rfl⟩
  obtain ⟨t, ht, haccepted⟩ := Grammar.balanced_accepts
  obtain ⟨⟨ρ⟩, hagree⟩ := tables_agree hr
  obtain ⟨hiff, hagree⟩ := hagree ρ
  obtain ⟨t', ht'⟩ := hiff.mp ⟨t, ht⟩
  obtain ⟨⟨σ, hσ⟩, haccepts⟩ := hagree t t' ht ht'
  exact ⟨hr, ρ, t, t', σ, ht, ht', hσ, haccepted, (haccepts [] [] .zero .zero _ _).mp haccepted⟩

end SimpleLR
