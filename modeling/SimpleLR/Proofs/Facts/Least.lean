import SimpleLR.Proofs.Facts.Models

/-!
# Facts are the least model

Whatever sweeping finds has a reason in one of the productions, so it holds in every model of their
rules. Facts found from fewer productions are therefore included in those found from more, and neither
the order of the productions nor how often one is visited makes a difference.
-/
namespace SimpleLR

variable {g : Grammar} {ps : List Production} {marks : Nullable.Marks} {firsts : First.Sets}
  {N : Nat → Prop} {B : Nat → Nat → Prop} {L : Nat → Lookahead → Prop}

/-- A marked nonterminal has every property that the productions hand on to their left sides. -/
theorem Nullable.holds_induction (h : ∀ p ∈ ps, (∀ c ∈ p.rhs, N c) → N p.lhs) {A : Nat}
    (hA : holds (ofProductions g ps) A = true) : N A := by
  refine stabilize_foldl_induction (f := visit) (fun marks => ∀ A, holds marks A = true → N A)
    ?_ _ ?_ A hA
  · intro marks hmarks p hp A hA
    rcases holds_visit.mp hA with hA | ⟨rfl, -, hall⟩
    · exact hmarks A hA
    · exact h p hp fun c hc => hmarks c (List.all_eq_true.mp hall c hc)
  · intro A hA
    rw [holds, Array.getD_eq_getD_getElem?, Array.getElem?_replicate] at hA
    split at hA <;> contradiction

theorem First.mem_setOf_induction (hN : ∀ c, Nullable.holds marks c = true → N c)
    (h : ∀ p ∈ ps, ∀ x, Begins g N B p.rhs x → B p.lhs x) {A x : Nat}
    (hx : x ∈ setOf (ofProductions g marks ps) A) : B A x := by
  refine stabilize_foldl_induction (f := visit g marks)
    (fun sets => ∀ A x, x ∈ setOf sets A → B A x) ?_ _ ?_ A x hx
  · intro sets hsets p hp A x hx
    rcases mem_setOf_visit.mp hx with hx | ⟨rfl, -, hx⟩
    · exact hsets A x hx
    · exact h p hp x ((mem_ofString.mp hx).mono hN hsets)
  · intro A x hx
    exact absurd ((within_replicate _ []).2 A x hx) List.not_mem_nil

theorem Follow.mem_setOf_walk_induction (hN : ∀ c, Nullable.holds marks c = true → N c)
    (hB : ∀ c x, x ∈ First.setOf firsts c → B c x) {lhs : Nat} {rest : List Nat}
    (h : ∀ u A v, rest = u ++ A :: v → g.isNonterminal A = true → ∀ la, Comes g N B L lhs v la → L A la)
    {sets : Sets} (hsets : ∀ A la, la ∈ setOf sets A → L A la) {A : Nat} {la : Lookahead}
    (hla : la ∈ setOf (walk g marks firsts lhs rest sets) A) : L A la := by
  induction rest generalizing sets with
  | nil => exact hsets A la hla
  | cons c rest ih =>
    have hrest : ∀ u A v, rest = u ++ A :: v → g.isNonterminal A = true → ∀ la,
        Comes g N B L lhs v la → L A la := by
      rintro u A v rfl
      exact h (c :: u) A v rfl
    rw [walk] at hla
    split at hla
    · exact ih hrest hsets hla
    · rename_i hc
      refine ih hrest (fun A la hla => ?_) hla
      rcases mem_setAt_modify.mp hla with hla | ⟨rfl, -, hla⟩
      · exact hsets A la hla
      · have hA : g.isNonterminal A = true := by
          simpa [Grammar.isTerminal, Grammar.isNonterminal] using hc
        exact h [] A rest rfl hA la ((mem_after.mp hla).mono hN hB hsets)

theorem Follow.mem_setOf_induction (hN : ∀ c, Nullable.holds marks c = true → N c)
    (hB : ∀ c x, x ∈ First.setOf firsts c → B c x)
    (h : ∀ p ∈ ps, ∀ u A v, p.rhs = u ++ A :: v → g.isNonterminal A = true → ∀ la,
      Comes g N B L p.lhs v la → L A la)
    (hlast : L g.augmentedStart .endOfInput) {A : Nat} {la : Lookahead}
    (hla : la ∈ setOf (ofProductions g marks firsts ps) A) : L A la := by
  refine stabilize_foldl_induction (f := visit g marks firsts)
    (fun sets => ∀ A la, la ∈ setOf sets A → L A la) ?_ _ ?_ A la hla
  · intro sets hsets p hp A la hla
    exact mem_setOf_walk_induction hN hB (h p hp) hsets hla
  · intro A la hla
    obtain ⟨rfl, rfl⟩ := mem_setOf_seed.mp hla
    exact hlast

namespace Facts

/-- Facts are included in every model of the rules of their productions. -/
theorem interpretation_included {I : Interpretation} (hI : I.Models g ps) :
    (ofProductions g ps).interpretation.Included I := by
  have hnullable : ∀ A, (ofProductions g ps).isNullable A = true → I.IsNullable A := fun A hA =>
    Nullable.holds_induction hI.nullable hA
  have hfirst : ∀ A x, x ∈ (ofProductions g ps).first A → I.BeginsWith A x := fun A x hx =>
    First.mem_setOf_induction hnullable hI.first hx
  have hfollow : ∀ A la, la ∈ (ofProductions g ps).follow A → I.FollowedBy A la := fun A la hla =>
    Follow.mem_setOf_induction hnullable hfirst hI.follow hI.last hla
  exact ⟨hnullable, hfirst, hfollow⟩

theorem ofProductions_mono {qs : List Production} (hqs : ∀ p ∈ qs, p ∈ g.productions) (h : ps ⊆ qs) :
    (ofProductions g ps).interpretation.Included (ofProductions g qs).interpretation :=
  interpretation_included ((closed_ofProductions hqs).models.mono h)

/-- Nothing but the end of the input comes after the augmented start symbol, which stands in no right
side. -/
theorem follow_augmentedStart {la : Lookahead} (h : la ∈ (ofGrammar g).follow g.augmentedStart) :
    la = .endOfInput := by
  have hI : Interpretation.Models g g.productions
      ⟨fun _ => True, fun _ _ => True, fun A la => A = g.augmentedStart → la = .endOfInput⟩ := by
    refine ⟨fun _ _ _ => trivial, fun _ _ _ _ => trivial, ?_, fun _ => rfl⟩
    rintro p hp u A v hrhs - la - rfl
    exact absurd rfl (Grammar.rhs_lt hp (by simp [hrhs])).2
  exact (interpretation_included hI).follow _ la h rfl

/-- There is an entry for each nonterminal of a grammar. -/
structure Spans (f : Facts) (g : Grammar) : Prop where
  nullable : f.nullable.size = g.nonterminalCount
  firsts : f.firsts.size = g.nonterminalCount
  follows : f.follows.size = g.nonterminalCount

namespace Spans

variable {f f' : Facts} (hf : f.Spans g)

include hf

section

variable {A : Nat} (hA : g.isNonterminal A = true)

include hA

theorem nullable?_eq : f.nullable? A = some (f.isNullable A) := by
  have hlt : A < f.nullable.size := by simpa [hf.nullable, Grammar.isNonterminal] using hA
  simp [nullable?, isNullable, Nullable.holds, Array.getD_eq_getD_getElem?, hlt]

theorem first?_eq : f.first? A = some (f.first A) := by
  have hlt : A < f.firsts.size := by simpa [hf.firsts, Grammar.isNonterminal] using hA
  rw [first?, Array.getElem?_eq_getElem hlt]
  exact congrArg some (setAt_eq hlt).symm

theorem follow?_eq : f.follow? A = some (f.follow A) := by
  have hlt : A < f.follows.size := by simpa [hf.follows, Grammar.isNonterminal] using hA
  rw [follow?, Array.getElem?_eq_getElem hlt]
  exact congrArg some (setAt_eq hlt).symm

end

/-- Facts about the same nonterminals that say the same are equal. -/
theorem ext (hf' : f'.Spans g) (h : f.interpretation.Included f'.interpretation)
    (h' : f'.interpretation.Included f.interpretation) : f = f' := by
  have hnullable : f.nullable = f'.nullable := by
    apply Nullable.holds_ext (hf.nullable.trans hf'.nullable.symm)
    exact fun A _ => Bool.eq_iff_iff.mpr ⟨h.nullable A, h'.nullable A⟩
  have hfirsts : f.firsts = f'.firsts := by
    apply setAt_ext (hf.firsts.trans hf'.firsts.symm)
    exact fun A x => ⟨h.first A x, h'.first A x⟩
  have hfollows : f.follows = f'.follows := by
    apply setAt_ext (hf.follows.trans hf'.follows.symm)
    exact fun A la => ⟨h.follow A la, h'.follow A la⟩
  cases f
  cases f'
  congr

end Spans

theorem spans_ofProductions (hps : ∀ p ∈ ps, p ∈ g.productions) : (ofProductions g ps).Spans g where
  nullable := Nullable.size_ofProductions
  firsts := (First.within_ofProductions hps).1
  follows := (Follow.within_ofProductions hps (First.within_ofProductions hps)).1

/-- Ids below the number of productions are looked up to the productions that have them. -/
theorem exists_productions {ids : List Nat} (h : ∀ id ∈ ids, id < g.productions.length) :
    ∃ ps, ids.mapM g.production? = some ps ∧ ∀ p, p ∈ ps ↔ p ∈ g.productions ∧ p.id ∈ ids := by
  induction ids with
  | nil => exact ⟨[], rfl, by simp⟩
  | cons id ids ih =>
    obtain ⟨ps, hps, hmem⟩ := ih fun i hi => h i (List.mem_cons_of_mem id hi)
    obtain ⟨p, hp⟩ : ∃ p, g.production? id = some p :=
      ⟨_, List.getElem?_eq_getElem (h id List.mem_cons_self)⟩
    have hid : ∀ q, q = p ↔ q ∈ g.productions ∧ q.id = id := by
      intro q
      constructor
      · rintro rfl
        exact ⟨Grammar.mem_productions_of_production? hp, Grammar.id_of_production? hp⟩
      · rintro ⟨hq, rfl⟩
        rw [Grammar.production?_id hq] at hp
        exact Option.some.inj hp
    use p :: ps
    constructor
    · simp [List.mapM_cons, hp, hps]
    · intro q
      rw [List.mem_cons, List.mem_cons, hmem, hid, ← and_or_left]

theorem inOrder?_eq {ids : List Nat} (h : ids.mapM g.production? = some ps) :
    inOrder? g ids = some (ofProductions g ps) := by
  rw [inOrder?, h, Option.map_some]

/-- The facts that some productions bring about are among those that these and any others bring about;
only which productions are visited matters, and neither their order nor how often each one is. -/
theorem inOrder_mono {ids ids' : List Nat} (hids' : ∀ id ∈ ids', id < g.productions.length)
    (h : ids ⊆ ids') :
    ∃ f f', inOrder? g ids = some f ∧ inOrder? g ids' = some f' ∧ f.Spans g ∧ f'.Spans g ∧
      (∀ A, f.isNullable A = true → f'.isNullable A = true) ∧
      (∀ A, ∀ c ∈ f.first A, c ∈ f'.first A) ∧
      (∀ A, ∀ la ∈ f.follow A, la ∈ f'.follow A) ∧
      (ids' ⊆ ids → f = f') := by
  obtain ⟨ps, hps, hmem⟩ := exists_productions (g := g) fun id hid => hids' id (h hid)
  obtain ⟨ps', hps', hmem'⟩ := exists_productions hids'
  have hg : ∀ p ∈ ps, p ∈ g.productions := fun p hp => ((hmem p).mp hp).1
  have hg' : ∀ p ∈ ps', p ∈ g.productions := fun p hp => ((hmem' p).mp hp).1
  have hsub : ps ⊆ ps' := fun p hp =>
    (hmem' p).mpr ⟨hg p hp, h ((hmem p).mp hp).2⟩
  have hincluded := ofProductions_mono hg' hsub
  refine ⟨_, _, inOrder?_eq hps, inOrder?_eq hps', spans_ofProductions hg, spans_ofProductions hg',
    hincluded.nullable, hincluded.first, hincluded.follow, fun h' => ?_⟩
  have hsup : ps' ⊆ ps := fun p hp =>
    (hmem p).mpr ⟨hg' p hp, h' ((hmem' p).mp hp).2⟩
  exact (spans_ofProductions hg).ext (spans_ofProductions hg') hincluded
    (ofProductions_mono hg hsup)

/-- The rules of the grammar `S → a S b | ε`, `U → a U`, visited in another order and one of them twice. -/
theorem inOrder_mono_balanced :
    (∀ id ∈ [3, 1, 2, 1], id < Grammar.balanced.productions.length) ∧ [2, 1, 3] ⊆ [3, 1, 2, 1] ∧
      [3, 1, 2, 1] ⊆ [2, 1, 3] ∧
      ∃ f, inOrder? .balanced [2, 1, 3] = some f ∧ inOrder? .balanced [3, 1, 2, 1] = some f := by
  have hids : ∀ id ∈ [3, 1, 2, 1], id < Grammar.balanced.productions.length := by decide
  have hsub : [2, 1, 3] ⊆ [3, 1, 2, 1] := by decide
  have hsup : [3, 1, 2, 1] ⊆ [2, 1, 3] := by decide
  obtain ⟨f, f', hf, hf', -, -, -, -, -, heq⟩ := inOrder_mono hids hsub
  obtain rfl := heq hsup
  exact ⟨hids, hsub, hsup, f, hf, hf'⟩

end Facts

end SimpleLR
