import SimpleLR.Facts.Basic
import SimpleLR.Proofs.Derivation
import SimpleLR.Proofs.Facts.Saturation

/-!
# Facts that are closed

When sweeping has come to its end, every production has drawn its conclusions: a left side is nullable
if its right side is, can begin with what its right side can begin with, and hands on to the
nonterminals of its right side what can come after them.
-/
namespace SimpleLR

variable {g : Grammar} {ps : List Production}

namespace Nullable

theorem holds_visit {marks : Marks} {p : Production} {c : Nat} :
    holds (visit marks p) c = true ↔ holds marks c = true ∨
      c = p.lhs ∧ p.lhs < marks.size ∧ p.rhs.all (holds marks) = true := by
  rw [visit]
  split
  · rename_i hall
    simp only [holds, Array.getD_eq_getD_getElem?, Array.getElem?_setIfInBounds]
    by_cases hc : p.lhs = c
    · subst hc
      by_cases hlt : p.lhs < marks.size
      · simp [hlt, hall]
      · simp [hlt]
    · simp [hc, Ne.symm hc]
  · rename_i hall
    simp [hall]

@[simp] theorem size_visit (marks : Marks) (p : Production) :
    (visit marks p).size = marks.size := by
  rw [visit]
  split <;> simp

theorem size_sweep (ps : List Production) (marks : Marks) : (sweep ps marks).size = marks.size :=
  List.foldlRecOn ps visit (motive := fun m => m.size = marks.size) rfl
    fun m hm p _ => (size_visit m p).trans hm

theorem holds_sweep {marks : Marks} {c : Nat} (h : holds marks c = true) :
    holds (sweep ps marks) c = true :=
  foldl_grows (fun m c => holds m c = true) (fun _ _ _ h => holds_visit.mpr (.inl h)) ps h

theorem size_ofProductions : (ofProductions g ps).size = g.nonterminalCount :=
  stabilize_induction (fun m => m.size = g.nonterminalCount)
    (fun m hm => (size_sweep ps m).trans hm) _ (by simp)

theorem holds_ext {s t : Marks} (hsize : s.size = t.size)
    (h : ∀ c < s.size, holds s c = holds t c) : s = t := by
  apply Array.ext hsize
  intro c hs ht
  simpa [holds, Array.getD_eq_getD_getElem?, hs, ht] using h c hs

/-- A sweep only ever marks more nonterminals. -/
theorem sweep_grows (g : Grammar) (ps : List Production) :
    Grows (fun m : Marks => m.size = g.nonterminalCount) (sweep ps) (List.range g.nonterminalCount)
      holds where
  keeps m hm := (size_sweep ps m).trans hm
  grows _ _ _ _ h := holds_sweep h
  ext s t hs ht hst := by
    apply holds_ext (hs.trans ht.symm)
    intro c hc
    exact hst c (List.mem_range.mpr (hs ▸ hc))

/-- A production for a marked nonterminal has nothing to say. -/
theorem visit_eq_self {marks : Marks} {p : Production} (h : holds marks p.lhs = true) :
    visit marks p = marks := by
  apply holds_ext (size_visit marks p)
  intro c _
  rw [Bool.eq_iff_iff, holds_visit, or_iff_left_iff_imp]
  rintro ⟨rfl, -⟩
  exact h

/-- Another sweep marks nothing more. -/
theorem sweep_ofProductions (g : Grammar) (ps : List Production) :
    sweep ps (ofProductions g ps) = ofProductions g ps :=
  (sweep_grows g ps).stabilize_stable (by simp) (by simp)

/-- A left side is marked if its right side is. -/
theorem holds_lhs {p : Production} (hp : p ∈ ps) (hlhs : p.lhs < g.nonterminalCount)
    (h : p.rhs.all (holds (ofProductions g ps)) = true) :
    holds (ofProductions g ps) p.lhs = true := by
  obtain ⟨m, hm, hgrown, hend⟩ := foldl_visits (f := visit) (fun m c => holds m c = true)
    (fun m => m.size = g.nonterminalCount) (fun m hm p _ => (size_visit m p).trans hm)
    (fun _ _ _ h => holds_visit.mpr (.inl h)) hp size_ofProductions
  have hlast := hend p.lhs (holds_visit.mpr (.inr ⟨rfl, hm ▸ hlhs, ?_⟩))
  · rwa [← sweep_ofProductions]
  · rw [List.all_eq_true] at h ⊢
    exact fun c hc => hgrown c (h c hc)

end Nullable

namespace First

variable {marks : Nullable.Marks}

theorem ofString_mono {sets sets' : Sets} (h : ∀ c x, x ∈ setOf sets c → x ∈ setOf sets' c)
    {u : List Nat} {x : Nat} (hx : x ∈ ofString g marks sets u) :
    x ∈ ofString g marks sets' u := by
  induction u with
  | nil => exact hx
  | cons c u ih =>
    simp only [ofString] at hx ⊢
    split
    · rename_i hc
      rwa [if_pos hc] at hx
    · rename_i hc
      rw [if_neg hc, List.mem_append] at hx
      apply List.mem_append.mpr
      cases hx with
      | inl hx => exact .inl (h c x hx)
      | inr hx =>
        split at hx
        · rename_i hn
          rw [if_pos hn]
          exact .inr (ih hx)
        · exact absurd hx List.not_mem_nil

/-- A string of symbols of the grammar begins with terminals of it. -/
theorem ofString_terminals {sets : Sets} (h : Within g.nonterminalCount g.terminals sets)
    {u : List Nat} (hu : ∀ c ∈ u, c < g.symbolCount) {x : Nat}
    (hx : x ∈ ofString g marks sets u) : x ∈ g.terminals := by
  induction u with
  | nil => exact absurd hx List.not_mem_nil
  | cons c u ih =>
    simp only [ofString] at hx
    split at hx
    · rename_i hc
      obtain rfl := List.mem_singleton.mp hx
      apply Grammar.mem_terminals.mpr
      exact ⟨by simpa [Grammar.isTerminal] using hc, hu x List.mem_cons_self⟩
    · cases List.mem_append.mp hx with
      | inl hx => exact h.2 c x hx
      | inr hx =>
        split at hx
        · exact ih (fun d hd => hu d (List.mem_cons_of_mem c hd)) hx
        · exact absurd hx List.not_mem_nil

theorem mem_setOf_visit {sets : Sets} {p : Production} {c x : Nat} :
    x ∈ setOf (visit g marks sets p) c ↔ x ∈ setOf sets c ∨
      c = p.lhs ∧ p.lhs < sets.size ∧ x ∈ ofString g marks sets p.rhs :=
  mem_setAt_modify

theorem within_visit {sets : Sets} (h : Within g.nonterminalCount g.terminals sets)
    {p : Production} (hp : p ∈ g.productions) :
    Within g.nonterminalCount g.terminals (visit g marks sets p) :=
  h.modify fun _ hx => ofString_terminals h (fun _ hc => (Grammar.rhs_lt hp hc).1) hx

theorem within_sweep (hps : ∀ p ∈ ps, p ∈ g.productions) {sets : Sets}
    (h : Within g.nonterminalCount g.terminals sets) :
    Within g.nonterminalCount g.terminals (sweep g marks ps sets) :=
  List.foldlRecOn ps (visit g marks) h fun _ h p hp => within_visit h (hps p hp)

theorem mem_setOf_sweep {sets : Sets} {c x : Nat} (h : x ∈ setOf sets c) :
    x ∈ setOf (sweep g marks ps sets) c :=
  foldl_grows (fun s (k : Nat × Nat) => k.2 ∈ setOf s k.1)
    (fun _ _ _ h => mem_setOf_visit.mpr (.inl h)) ps (k := (c, x)) h

/-- The sets hold terminals of the grammar only. -/
theorem within_ofProductions (hps : ∀ p ∈ ps, p ∈ g.productions) :
    Within g.nonterminalCount g.terminals (ofProductions g marks ps) :=
  stabilize_induction _ (fun _ h => within_sweep hps h) _ (within_replicate _ _)

/-- A sweep only ever adds terminals. -/
theorem sweep_grows (hps : ∀ p ∈ ps, p ∈ g.productions) :
    Grows (Within g.nonterminalCount g.terminals) (sweep g marks ps)
      (places g.nonterminalCount g.terminals) fun s k => (setAt s k.1).contains k.2 :=
  sets_grow (fun _ h => within_sweep hps h) fun _ _ _ h => mem_setOf_sweep h

/-- Another sweep adds nothing. -/
theorem sweep_ofProductions (hps : ∀ p ∈ ps, p ∈ g.productions) :
    sweep g marks ps (ofProductions g marks ps) = ofProductions g marks ps :=
  (sweep_grows hps).stabilize_stable (by simp [length_places, Grammar.terminals])
    (within_replicate _ _)

/-- A left side can begin with what its right side can begin with. -/
theorem mem_setOf_lhs (hps : ∀ p ∈ ps, p ∈ g.productions) {p : Production} (hp : p ∈ ps) {x : Nat}
    (hx : x ∈ ofString g marks (ofProductions g marks ps) p.rhs) :
    x ∈ setOf (ofProductions g marks ps) p.lhs := by
  obtain ⟨sets, hsets, hgrown, hend⟩ := foldl_visits (f := visit g marks)
    (fun s (k : Nat × Nat) => k.2 ∈ setOf s k.1) (Within g.nonterminalCount g.terminals)
    (fun s hs p hp => within_visit hs (hps p hp)) (fun _ _ _ h => mem_setOf_visit.mpr (.inl h)) hp
    (within_ofProductions hps)
  rw [← sweep_ofProductions hps]
  apply hend (p.lhs, x)
  have hlt : p.lhs < sets.size := by
    rw [hsets.1]
    exact Grammar.lhs_lt (hps p hp)
  apply mem_setOf_visit.mpr
  exact .inr ⟨rfl, hlt, ofString_mono (fun c y hy => hgrown (c, y) hy) hx⟩

end First

namespace Follow

variable {marks : Nullable.Marks} {firsts : First.Sets}

/-- All lookaheads of a grammar. -/
def lookaheads (g : Grammar) : List Lookahead := g.terminals.map .terminal ++ [.endOfInput]

theorem length_lookaheads : (lookaheads g).length = g.terminalCount + 1 := by
  simp [lookaheads, Grammar.terminals]

theorem after_mono {sets sets' : Sets} (h : ∀ c x, x ∈ setOf sets c → x ∈ setOf sets' c) {lhs : Nat}
    {rest : List Nat} {x : Lookahead} (hx : x ∈ after g marks firsts sets lhs rest) :
    x ∈ after g marks firsts sets' lhs rest := by
  simp only [after, List.mem_append] at hx ⊢
  apply hx.imp_right
  split
  · exact h lhs x
  · exact id

theorem after_lookaheads (hfirsts : Within g.nonterminalCount g.terminals firsts) {sets : Sets}
    (h : Within g.nonterminalCount (lookaheads g) sets) {lhs : Nat} {rest : List Nat}
    (hrest : ∀ c ∈ rest, c < g.symbolCount) {x : Lookahead}
    (hx : x ∈ after g marks firsts sets lhs rest) : x ∈ lookaheads g := by
  simp only [after, List.mem_append] at hx
  cases hx with
  | inl hx =>
    obtain ⟨c, hc, rfl⟩ := List.mem_map.mp hx
    apply List.mem_append_left
    exact List.mem_map.mpr ⟨c, First.ofString_terminals hfirsts hrest hc, rfl⟩
  | inr hx =>
    split at hx
    · exact h.2 lhs x hx
    · exact absurd hx List.not_mem_nil

theorem walk_grows {lhs : Nat} (rest : List Nat) {sets : Sets} {c : Nat} {x : Lookahead}
    (h : x ∈ setOf sets c) : x ∈ setOf (walk g marks firsts lhs rest sets) c := by
  induction rest generalizing sets with
  | nil => exact h
  | cons d rest ih =>
    simp only [walk]
    split
    · exact ih h
    · exact ih (mem_setAt_modify.mpr (.inl h))

theorem within_walk (hfirsts : Within g.nonterminalCount g.terminals firsts) {lhs : Nat}
    {rest : List Nat} (hrest : ∀ c ∈ rest, c < g.symbolCount) {sets : Sets}
    (h : Within g.nonterminalCount (lookaheads g) sets) :
    Within g.nonterminalCount (lookaheads g) (walk g marks firsts lhs rest sets) := by
  induction rest generalizing sets with
  | nil => exact h
  | cons d rest ih =>
    have hrest' : ∀ c ∈ rest, c < g.symbolCount := fun c hc => hrest c (List.mem_cons_of_mem d hc)
    simp only [walk]
    split
    · exact ih hrest' h
    · exact ih hrest' (h.modify fun _ hx => after_lookaheads hfirsts h hrest' hx)

/-- A walk hands what can come after a nonterminal on to it. -/
theorem mem_setOf_walk {lhs A : Nat} {u v : List Nat} (hA : g.isNonterminal A = true) {sets : Sets}
    (hsize : sets.size = g.nonterminalCount) {x : Lookahead}
    (hx : x ∈ after g marks firsts sets lhs v) :
    x ∈ setOf (walk g marks firsts lhs (u ++ A :: v) sets) A := by
  have hlt : A < g.nonterminalCount := by simpa [Grammar.isNonterminal] using hA
  induction u generalizing sets with
  | nil =>
    simp only [List.nil_append, walk]
    rw [if_neg (by simpa [Grammar.isTerminal] using hlt)]
    exact walk_grows v (mem_setAt_modify.mpr (.inr ⟨rfl, hsize ▸ hlt, hx⟩))
  | cons d u ih =>
    simp only [List.cons_append, walk]
    split
    · exact ih hsize hx
    · apply ih
      · simpa using hsize
      · exact after_mono (fun c y hy => mem_setAt_modify.mpr (.inl hy)) hx

theorem within_sweep (hps : ∀ p ∈ ps, p ∈ g.productions)
    (hfirsts : Within g.nonterminalCount g.terminals firsts) {sets : Sets}
    (h : Within g.nonterminalCount (lookaheads g) sets) :
    Within g.nonterminalCount (lookaheads g) (sweep g marks firsts ps sets) :=
  List.foldlRecOn ps (visit g marks firsts) h fun _ h p hp =>
    within_walk hfirsts (fun _ hc => (Grammar.rhs_lt (hps p hp) hc).1) h

theorem mem_setOf_sweep {sets : Sets} {c : Nat} {x : Lookahead} (h : x ∈ setOf sets c) :
    x ∈ setOf (sweep g marks firsts ps sets) c :=
  foldl_grows (fun s (k : Nat × Lookahead) => k.2 ∈ setOf s k.1)
    (fun _ p _ h => walk_grows p.rhs h) ps (k := (c, x)) h

theorem mem_setOf_seed {c : Nat} {x : Lookahead} :
    x ∈ setOf (seed g) c ↔ c = g.augmentedStart ∧ x = .endOfInput := by
  have hlt : g.augmentedStart < g.nonterminalCount := Nat.lt_succ_self _
  simp only [setOf, seed, Array.getD_eq_getD_getElem?, Array.getElem?_setIfInBounds]
  split
  · rename_i hc
    subst hc
    simp [hlt]
  · rename_i hc
    rw [Array.getElem?_replicate]
    split <;> simp [Ne.symm hc]

theorem within_seed : Within g.nonterminalCount (lookaheads g) (seed g) := by
  constructor
  · simp [seed]
  · intro c x hx
    rw [(mem_setOf_seed.mp hx).2]
    simp [lookaheads]

/-- The sets hold lookaheads of the grammar only. -/
theorem within_ofProductions (hps : ∀ p ∈ ps, p ∈ g.productions)
    (hfirsts : Within g.nonterminalCount g.terminals firsts) :
    Within g.nonterminalCount (lookaheads g) (ofProductions g marks firsts ps) :=
  stabilize_induction _ (fun _ h => within_sweep hps hfirsts h) _ within_seed

/-- A sweep only ever adds lookaheads. -/
theorem sweep_grows (hps : ∀ p ∈ ps, p ∈ g.productions)
    (hfirsts : Within g.nonterminalCount g.terminals firsts) :
    Grows (Within g.nonterminalCount (lookaheads g)) (sweep g marks firsts ps)
      (places g.nonterminalCount (lookaheads g)) fun s k => (setAt s k.1).contains k.2 :=
  sets_grow (fun _ h => within_sweep hps hfirsts h) fun _ _ _ h => mem_setOf_sweep h

/-- Another sweep adds nothing. -/
theorem sweep_ofProductions (hps : ∀ p ∈ ps, p ∈ g.productions)
    (hfirsts : Within g.nonterminalCount g.terminals firsts) :
    sweep g marks firsts ps (ofProductions g marks firsts ps) =
      ofProductions g marks firsts ps :=
  (sweep_grows hps hfirsts).stabilize_stable (by simp [length_places, length_lookaheads]) within_seed

/-- The end of the input can come after the augmented start symbol. -/
theorem endOfInput_mem :
    .endOfInput ∈ setOf (ofProductions g marks firsts ps) g.augmentedStart :=
  stabilize_induction (fun sets => .endOfInput ∈ setOf sets g.augmentedStart)
    (fun _ h => mem_setOf_sweep h) _ (mem_setOf_seed.mpr ⟨rfl, rfl⟩)

/-- What can come after a nonterminal in a production can come after the nonterminal. -/
theorem mem_setOf_rhs (hps : ∀ p ∈ ps, p ∈ g.productions)
    (hfirsts : Within g.nonterminalCount g.terminals firsts) {p : Production} (hp : p ∈ ps) {A : Nat}
    {u v : List Nat} (hrhs : p.rhs = u ++ A :: v) (hA : g.isNonterminal A = true) {x : Lookahead}
    (hx : x ∈ after g marks firsts (ofProductions g marks firsts ps) p.lhs v) :
    x ∈ setOf (ofProductions g marks firsts ps) A := by
  obtain ⟨sets, hsets, hgrown, hend⟩ := foldl_visits (f := visit g marks firsts)
    (fun s (k : Nat × Lookahead) => k.2 ∈ setOf s k.1) (Within g.nonterminalCount (lookaheads g))
    (fun s hs p hp => within_walk hfirsts (fun _ hc => (Grammar.rhs_lt (hps p hp) hc).1) hs)
    (fun _ p _ h => walk_grows p.rhs h) hp (within_ofProductions hps hfirsts)
  rw [← sweep_ofProductions hps hfirsts]
  apply hend (A, x)
  rw [visit, hrhs]
  exact mem_setOf_walk hA hsets.1 (after_mono (fun c y hy => hgrown (c, y) hy) hx)

end Follow

namespace Facts

/-- Each of the productions has drawn its conclusions, and the end of the input can come after the
augmented start symbol. -/
structure Closed (g : Grammar) (ps : List Production) (f : Facts) : Prop where
  nullable : ∀ p ∈ ps, p.rhs.all f.isNullable = true → f.isNullable p.lhs = true
  first : ∀ p ∈ ps, ∀ c ∈ First.ofString g f.nullable f.firsts p.rhs, c ∈ f.first p.lhs
  follow : ∀ p ∈ ps, ∀ u A v, p.rhs = u ++ A :: v → g.isNonterminal A = true →
    ∀ la ∈ Follow.after g f.nullable f.firsts f.follows p.lhs v, la ∈ f.follow A
  last : .endOfInput ∈ f.follow g.augmentedStart

theorem closed_ofProductions (hps : ∀ p ∈ ps, p ∈ g.productions) :
    (ofProductions g ps).Closed g ps where
  nullable p hp h := Nullable.holds_lhs hp (Grammar.lhs_lt (hps p hp)) h
  first _ hp _ h := First.mem_setOf_lhs hps hp h
  follow _ hp _ _ _ hrhs hA _ h :=
    Follow.mem_setOf_rhs hps (First.within_ofProductions hps) hp hrhs hA h
  last := Follow.endOfInput_mem

/-- The FOLLOW sets hold lookaheads of the grammar only. -/
theorem within_ofGrammar (g : Grammar) :
    Within g.nonterminalCount (Follow.lookaheads g) (ofGrammar g).follows :=
  Follow.within_ofProductions (fun _ h => h) (First.within_ofProductions fun _ h => h)

theorem closed_ofGrammar (g : Grammar) : (ofGrammar g).Closed g g.productions :=
  closed_ofProductions fun _ h => h

end Facts

end SimpleLR
