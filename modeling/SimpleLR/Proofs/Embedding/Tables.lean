import SimpleLR.Proofs.Automaton.Cells
import SimpleLR.Proofs.Embedding.States
import SimpleLR.Proofs.Recognizer.Acceptance

/-!
# Tables of embedded grammars

Whatever a state of an embedded grammar may be reduced by, its counterpart may be reduced by as well. So
the embedded grammar has tables if the other one does, its cells hold what those of the other one hold,
and the recognizers accept the same inputs with the same reductions.
-/
namespace SimpleLR

/-- A grammar has tables unless one of its states clashes. -/
theorem Tables.exists_build_iff {g : Grammar} : (∃ t, build g = .ok t) ↔
    ¬∃ s ∈ g.states, ReduceTable.Clashes g (Facts.ofGrammar g) s := by
  rw [← ReduceTable.exists_build_iff (Facts.covers_ofGrammar g)]
  constructor
  · rintro ⟨t, ht⟩
    obtain ⟨-, ha⟩ := build_eq_ok ht
    exact ⟨_, (Automaton.build_eq_ok ha).1⟩
  · rintro ⟨t, ht⟩
    simp only [build, Automaton.build, ht]
    exact ⟨_, rfl⟩

namespace Embedding

variable {g h : Grammar} (e : Embedding g h)

open ReduceTable

theorem renamed_acceptItem : g.acceptItem.renamed e.code e.id = h.acceptItem := by
  rw [Grammar.acceptItem_eq, Grammar.acceptItem_eq, e.start]
  rfl

section

variable {e} {s s' : Nat} {st st' : State} (hp : e.Pairs s s') (hs : g.states[s]? = some st)
  (hs' : h.states[s']? = some st')

include hp hs hs'

theorem candidate_renamed {la : Lookahead} {i : Item} (hi : Candidate g (Facts.ofGrammar g) st la i) :
    Candidate h (Facts.ofGrammar h) st' (la.renamed e.code) (i.renamed e.code e.id) := by
  obtain ⟨hmem, hc, hla⟩ := hi
  have hi := Grammar.states_belongsTo hs hmem
  refine ⟨(mem_items_iff (hp.sameItems hs hs') hs hi).mpr hmem, ?_, e.follow hla⟩
  rw [e.renamed_isComplete hi, hc]

theorem clashes_renamed (hclash : Clashes g (Facts.ofGrammar g) st) :
    Clashes h (Facts.ofGrammar h) st' := by
  cases hclash with
  | @reduceReduce la i j hi hj hne =>
    refine .reduceReduce (candidate_renamed hp hs hs' hi) (candidate_renamed hp hs hs' hj) ?_
    obtain ⟨p, hpg, d, -, rfl⟩ := Grammar.states_belongsTo hs hi.1
    obtain ⟨q, hqg, d', -, rfl⟩ := Grammar.states_belongsTo hs hj.1
    intro hid
    exact hne (congrArg Production.id (e.id_inj p hpg q hqg hid))
  | @shiftReduce c t i hi ht =>
    obtain ⟨t', ht', -⟩ := hp.target (target?_eq_some.mpr ⟨st, hs, ht⟩)
    obtain ⟨st₁, hst₁, ht'⟩ := target?_eq_some.mp ht'
    rw [hs'] at hst₁
    obtain rfl := Option.some.inj hst₁
    exact .shiftReduce (candidate_renamed hp hs hs' hi) ht'

end

/-- An embedded grammar has tables if the other one does. -/
theorem exists_build (e : Embedding g h) (hb : ∃ t, Tables.build h = .ok t) : ∃ t, Tables.build g = .ok t := by
  rw [Tables.exists_build_iff] at hb ⊢
  rintro ⟨st, hst, hclash⟩
  obtain ⟨s, hs⟩ := Array.mem_iff_getElem?.mp hst
  obtain ⟨s', hp⟩ := e.exists_pairs hs
  obtain ⟨st', hs'⟩ := hp.exists_right
  exact hb ⟨st', Array.mem_of_getElem? hs', clashes_renamed hp hs hs' hclash⟩

section

variable {e} {t t' : Tables} (ht : Tables.build g = .ok t) (ht' : Tables.build h = .ok t')

include ht ht'

/-- What a cell holds is held by its counterpart. -/
theorem get?_renamed {s s' : Nat} (hp : e.Pairs s s') {la : Lookahead} (hla : la.Below g.symbolCount)
    {i : Item} (hi : t.automaton.reduces.get? s la = some i) :
    t'.automaton.reduces.get? s' (la.renamed e.code) = some (i.renamed e.code e.id) := by
  obtain ⟨-, ha⟩ := Tables.build_eq_ok ht
  obtain ⟨-, ha'⟩ := Tables.build_eq_ok ht'
  obtain ⟨st, hs⟩ := hp.exists_left
  obtain ⟨st', hs'⟩ := hp.exists_right
  have hcandidate := candidate_of_get? (Automaton.build_eq_ok ha).1 hs (Facts.covers_ofGrammar g) hla hi
  exact (get?_of_candidate (Automaton.build_eq_ok ha').1 hs' (candidate_renamed hp hs hs' hcandidate)).1

/-- The recognizers accept the same inputs with the same reductions. -/
theorem accepts_iff (states states' : List Nat) (stats stats' : Stats) (w r' : List Nat) :
    (t'.recognizer states' stats').Accepts (w.map e.code) r' ↔
      ∃ r, r' = r.map e.id ∧ (t.recognizer states stats).Accepts w r := by
  simp only [Tables.accepts_iff ht, Tables.accepts_iff ht', e.yields_iff]

theorem accepting_iff {s s' : Nat} (hp : e.Pairs s s') :
    t'.automaton.accepting = some s' ↔ t.automaton.accepting = some s := by
  obtain ⟨-, ha⟩ := Tables.build_eq_ok ht
  obtain ⟨-, ha'⟩ := Tables.build_eq_ok ht'
  obtain ⟨st, hs⟩ := hp.exists_left
  obtain ⟨st', hs'⟩ := hp.exists_right
  have haccept : g.acceptItem.BelongsTo g :=
    Production.itemAt_belongsTo List.mem_cons_self (Nat.le_refl 1)
  rw [Automaton.accepting_eq_some ha hs, Automaton.accepting_eq_some ha' hs', ← e.renamed_acceptItem]
  exact mem_items_iff (hp.sameItems hs hs') hs haccept

end

end Embedding

end SimpleLR
