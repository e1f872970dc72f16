import SimpleLR.Proofs.Embedding.Tables

/-!
# Dead rules

A declared production with a left side that the start symbol does not lead to is never used. Leaving some
of them out changes neither the states and their numbers nor what is accepted. The FOLLOW sets can lose
lookaheads, though, that only a dead rule brings about, and with them the cells that no accepted input
needs.
-/
namespace SimpleLR

namespace Grammar

variable (g : Grammar) (keep : Production → Bool)

/-- Production 0 and the declared productions that are to be kept, as they were numbered before. -/
def kept : List Production := g.startProduction :: g.rules.filter keep

/-- The declared productions that are to be kept, numbered anew. -/
def keptRules : List Production := (g.rules.filter keep).mapIdx fun i p => { p with id := i + 1 }

/-- The grammar with those of its declared productions that are to be kept. -/
def restrict : Grammar :=
  { g with
    rules := g.keptRules keep
    byLhs := Production.filed g.nonterminalCount (g.startProduction :: g.keptRules keep)
    rules_ids := by
      apply List.ext_getElem
      · simp
      · intro i _ _
        simp [keptRules]
        omega
    rules_sides := by
      intro p hp
      obtain ⟨i, hi, rfl⟩ := List.mem_mapIdx.mp hp
      have hmem := (List.mem_filter.mp (List.getElem_mem hi)).1
      exact g.rules_sides (g.rules.filter keep)[i] hmem
    byLhs_getElem? := Production.filed_getElem? _ _ }

/-- The id that a kept production had before. -/
def keptId (id : Nat) : Nat := ((g.kept keep)[id]?.map Production.id).getD 0

variable {g keep}

theorem kept_sublist : (g.kept keep).Sublist g.productions :=
  List.Sublist.cons_cons _ List.filter_sublist

theorem kept_ids_nodup : ((g.kept keep).map Production.id).Nodup := by
  refine List.Nodup.sublist (kept_sublist.map Production.id) ?_
  rw [productions_map_id]
  exact List.nodup_range

theorem restrict_productions :
    (g.restrict keep).productions = (g.kept keep).mapIdx fun i p => { p with id := i } := by
  rw [kept, List.mapIdx_cons]
  rfl

theorem keptId_eq {i : Nat} (hi : i < (g.kept keep).length) :
    g.keptId keep i = ((g.kept keep)[i]).id := by
  simp [keptId, hi]

/-- The kept productions are those of the restricted grammar by the ids from before. -/
theorem mem_restrict {p : Production} (hp : p ∈ (g.restrict keep).productions) :
    ∃ (i : Nat) (hi : i < (g.kept keep).length), p.id = i ∧
      p.renamed (Equiv.refl Nat) (g.keptId keep) = (g.kept keep)[i] := by
  rw [restrict_productions] at hp
  obtain ⟨i, hi, rfl⟩ := List.mem_mapIdx.mp hp
  refine ⟨i, hi, rfl, ?_⟩
  simp [Production.renamed, keptId_eq hi]

theorem exists_mem_restrict {q : Production} (hq : q ∈ g.kept keep) :
    ∃ p ∈ (g.restrict keep).productions, q = p.renamed (Equiv.refl Nat) (g.keptId keep) := by
  obtain ⟨i, hi, rfl⟩ := List.mem_iff_getElem.mp hq
  refine ⟨{ (g.kept keep)[i] with id := i }, ?_, ?_⟩
  · rw [restrict_productions]
    exact List.mem_mapIdx.mpr ⟨i, hi, rfl⟩
  · simp [Production.renamed, keptId_eq hi]

/-- A grammar without some dead rules is embedded in the whole one. -/
def restrictEmbedding (hdead : ∀ p ∈ g.rules, keep p = false → ¬g.Reachable p.lhs) :
    Embedding (g.restrict keep) g where
  code := Equiv.refl Nat
  id := g.keptId keep
  id_inj := by
    intro p hp q hq hid
    obtain ⟨i, hi, hpi, -⟩ := mem_restrict hp
    obtain ⟨j, hj, hqj, -⟩ := mem_restrict hq
    rw [hpi, hqj, keptId_eq hi, keptId_eq hj] at hid
    apply Production.eq_of_id_eq hp hq
    rw [hpi, hqj]
    have hlt : i < ((g.kept keep).map Production.id).length := by simpa using hi
    exact (List.getElem?_inj hlt kept_ids_nodup).mp (by simp [hi, hj, hid])
  lt_symbolCount _ := Iff.rfl
  isNonterminal _ := rfl
  start := rfl
  mem p hp := by
    obtain ⟨i, hi, -, heq⟩ := mem_restrict hp
    exact heq ▸ kept_sublist.subset (List.getElem_mem hi)
  covers q hq hreach := by
    apply exists_mem_restrict
    rcases List.mem_cons.mp hq with rfl | hrule
    · exact List.mem_cons_self
    · apply List.mem_cons_of_mem
      refine List.mem_filter.mpr ⟨hrule, ?_⟩
      by_contra hdrop
      exact hdead q hrule (by simpa using hdrop) hreach

section

variable (hdead : ∀ p ∈ g.rules, keep p = false → ¬g.Reachable p.lhs) {s : Nat}

/-- Each state is the counterpart of the one with its number. -/
theorem restrict_pairs (hs : s < (g.restrict keep).states.size) :
    (restrictEmbedding hdead).Pairs s s := by
  obtain ⟨σ, hσ, hpairs⟩ := (restrictEmbedding hdead).exists_matches
  have hp := hpairs s hs
  rwa [Matches.eq_self hσ (states_breadthFirst _) (states_breadthFirst _) s hs] at hp

include hdead

theorem restrict_alike : (g.restrict keep).states.size = g.states.size ∧
    ∀ s < (g.restrict keep).states.size, ∀ X,
      target? g.states s X = target? (g.restrict keep).states s X := by
  obtain ⟨σ, hσ, -⟩ := (restrictEmbedding hdead).exists_matches
  exact Matches.alike hσ (states_breadthFirst _) (states_breadthFirst _)

theorem restrict_targets {st' st : State} (hs' : (g.restrict keep).states[s]? = some st')
    (hs : g.states[s]? = some st) : st'.targets = st.targets := by
  have hlt := (Array.getElem?_eq_some_iff.mp hs').1
  apply Array.ext
  · rw [states_targets_size hs', states_targets_size hs]
    rfl
  · intro X hX' hX
    have htarget := (restrict_alike hdead).2 s hlt X
    simpa [target?, hs, hs', State.transition?, hX, hX'] using htarget.symm

end

end Grammar

theorem Lookahead.renamed_id (la : Lookahead) : la.renamed id = la := by
  cases la <;> rfl

/-- If a grammar has tables, it still has when some declared productions are left out whose left sides the
start symbol does not lead to. There are as many states, with the same rows and the same items up to the
ids, a cell that is filled has been filled before with the same item up to the id, and the same inputs are
accepted with the same reductions up to the ids. -/
theorem Grammar.restrict_dead {g : Grammar} {keep : Production → Bool}
    (hdead : ∀ p ∈ g.rules, keep p = false → ¬g.Reachable p.lhs) {t : Tables}
    (ht : Tables.build g = .ok t) : ∃ t', Tables.build (g.restrict keep) = .ok t' ∧
      t'.automaton.states.size = t.automaton.states.size ∧
      (∀ (s : Nat) (st' st : State), t'.automaton.states[s]? = some st' →
        t.automaton.states[s]? = some st →
          st'.targets = st.targets ∧ SameItems id (g.keptId keep) st' st) ∧
      (∀ s < t'.automaton.states.size, ∀ la : Lookahead, la.Below g.symbolCount → ∀ i,
        t'.automaton.reduces.get? s la = some i →
          t.automaton.reduces.get? s la = some (i.renamed id (g.keptId keep))) ∧
      ∀ states states' stats stats' w r, (t.recognizer states stats).Accepts w r ↔
        ∃ r', (t'.recognizer states' stats').Accepts w r' ∧ r = r'.map (g.keptId keep) := by
  obtain ⟨t', ht'⟩ := (restrictEmbedding hdead).exists_build ⟨t, ht⟩
  refine ⟨t', ht', ?_⟩
  rw [Automaton.states_of_build (Tables.build_eq_ok ht').2,
    Automaton.states_of_build (Tables.build_eq_ok ht).2]
  refine ⟨(restrict_alike hdead).1, ?_, ?_, ?_⟩
  · intro s st' st hs' hs
    have hp := restrict_pairs hdead (Array.getElem?_eq_some_iff.mp hs').1
    exact ⟨restrict_targets hdead hs' hs, hp.sameItems hs' hs⟩
  · intro s hs la hla i hi
    have hcell := Embedding.get?_renamed ht' ht (restrict_pairs hdead hs) hla hi
    have hla : la.renamed (restrictEmbedding hdead).code = la := la.renamed_id
    rw [hla] at hcell
    exact hcell
  · intro states states' stats stats' w r
    have hw : w.map (restrictEmbedding hdead).code = w := List.map_id w
    have haccepts := Embedding.accepts_iff (e := restrictEmbedding hdead) ht' ht states' states stats' stats w r
    rw [hw] at haccepts
    rw [haccepts]
    exact exists_congr fun r' => and_comm

/-- Without the rules of `U`, the grammar `S → a S b | ε` has as many states as with them. -/
theorem Grammar.restrict_dead_balanced : ∃ t t', Tables.build .balanced = .ok t ∧
    (∀ p ∈ balanced.rules, decide (p.lhs ≠ 1) = false → ¬balanced.Reachable p.lhs) ∧
    Tables.build (balanced.restrict fun p => p.lhs ≠ 1) = .ok t' ∧
    t'.automaton.states.size = t.automaton.states.size ∧ (t.recognizer [] .zero).Accepts [3, 4] [2, 1] ∧
    ∃ r', (t'.recognizer [] .zero).Accepts [3, 4] r' := by
  obtain ⟨t, ht, haccepted⟩ := balanced_accepts
  have hdead : ∀ p ∈ balanced.rules, decide (p.lhs ≠ 1) = false → ¬balanced.Reachable p.lhs := by
    intro p _ hp
    have hlhs : p.lhs = 1 := by simpa using hp
    exact hlhs ▸ balanced_not_reachable
  obtain ⟨t', ht', hsize, -, -, haccepts⟩ := restrict_dead hdead ht
  obtain ⟨r', hr', -⟩ := (haccepts [] [] .zero .zero [3, 4] [2, 1]).mp haccepted
  exact ⟨t, t', ht, hdead, ht', hsize, haccepted, r', hr'⟩

end SimpleLR
