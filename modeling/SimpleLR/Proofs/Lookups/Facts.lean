import SimpleLR.Proofs.Facts.Closed
import SimpleLR.Proofs.Lookups.Loops

/-!
# Looking up facts

The facts about a grammar are found without a lookup that could fail: productions are looked up by their
ids, and marks and sets by the codes of nonterminals, for which all rows have entries.
-/
namespace SimpleLR.Checked

variable {g : Grammar} {ps : List Production}

/-- Whether a symbol is marked. Only nonterminals are looked up. -/
def holds (g : Grammar) (marks : Nullable.Marks) (c : Nat) : Option Bool :=
  if g.isNonterminal c then marks[c]? else some false

/-- Draws the conclusion of the production with an id, unless its left side is marked. -/
def visitNullable (g : Grammar) (marks : Nullable.Marks) (id : Nat) : Option Nullable.Marks := do
  let p ← g.production? id
  let marked ← marks[p.lhs]?
  if marked then return marks
  else
    let all ← p.rhs.allM (holds g marks)
    if all then set marks p.lhs true else return marks

def nullable (g : Grammar) (ids : List Nat) : Option Nullable.Marks :=
  stabilize (fun marks => ids.foldlM (visitNullable g) marks) g.nonterminalCount
    (Array.replicate g.nonterminalCount false)

/-- The terminals that can begin a string. -/
def ofString (g : Grammar) (marks : Nullable.Marks) (sets : First.Sets) :
    List Nat → Option (List Nat)
  | [] => some []
  | c :: cs =>
    if g.isTerminal c then some [c]
    else do
      let first ← sets[c]?
      let marked ← marks[c]?
      let rest ← if marked then ofString g marks sets cs else some []
      return first.toList ++ rest

def visitFirst (g : Grammar) (marks : Nullable.Marks) (sets : First.Sets) (id : Nat) :
    Option First.Sets := do
  let p ← g.production? id
  let codes ← ofString g marks sets p.rhs
  modify sets p.lhs (·.insertAll codes)

def firsts (g : Grammar) (marks : Nullable.Marks) (ids : List Nat) : Option First.Sets :=
  stabilize (fun sets => ids.foldlM (visitFirst g marks) sets)
    (g.nonterminalCount * g.terminalCount) (Array.replicate g.nonterminalCount OrdSet.empty)

/-- What can come after a symbol that has `rest` after it in a production for `lhs`. -/
def after (g : Grammar) (marks : Nullable.Marks) (firsts : First.Sets) (sets : Follow.Sets)
    (lhs : Nat) (rest : List Nat) : Option (List Lookahead) := do
  let codes ← ofString g marks firsts rest
  let all ← rest.allM (holds g marks)
  let last ← if all then (sets[lhs]?).map OrdSet.toList else some []
  return codes.map .terminal ++ last

/-- Walks along the right side of a production for `lhs`. -/
def walk (g : Grammar) (marks : Nullable.Marks) (firsts : First.Sets) (lhs : Nat) :
    List Nat → Follow.Sets → Option Follow.Sets
  | [], sets => some sets
  | c :: rest, sets =>
    if g.isTerminal c then walk g marks firsts lhs rest sets
    else do
      let lookaheads ← after g marks firsts sets lhs rest
      let sets ← modify sets c (·.insertAll lookaheads)
      walk g marks firsts lhs rest sets

def visitFollow (g : Grammar) (marks : Nullable.Marks) (firsts : First.Sets) (sets : Follow.Sets)
    (id : Nat) : Option Follow.Sets := do
  let p ← g.production? id
  walk g marks firsts p.lhs p.rhs sets

def follows (g : Grammar) (marks : Nullable.Marks) (firsts : First.Sets) (ids : List Nat) :
    Option Follow.Sets := do
  let seed ← set (Array.replicate g.nonterminalCount OrdSet.empty) g.augmentedStart
    (OrdSet.ofList [.endOfInput])
  stabilize (fun sets => ids.foldlM (visitFollow g marks firsts) sets)
    (g.nonterminalCount * (g.terminalCount + 1)) seed

/-- The facts that the productions with the given ids bring about. -/
def facts (g : Grammar) (ids : List Nat) : Option Facts := do
  let marks ← nullable g ids
  let firsts ← firsts g marks ids
  let follows ← follows g marks firsts ids
  return ⟨marks, firsts, follows⟩

section

variable {marks : Nullable.Marks} (hmarks : marks.size = g.nonterminalCount)

include hmarks

theorem holds_eq : holds g marks = fun c => some (Nullable.holds marks c) := by
  funext c
  by_cases hc : c < g.nonterminalCount <;>
    simp [holds, Nullable.holds, Grammar.isNonterminal, hc, hmarks]

theorem allM_holds_eq (u : List Nat) :
    u.allM (holds g marks) = some (u.all (Nullable.holds marks)) := by
  rw [holds_eq hmarks]
  exact List.allM_pure

theorem visitNullable_eq {p : Production} (hp : p ∈ g.productions) :
    visitNullable g marks p.id = some (Nullable.visit marks p) := by
  have hlhs : p.lhs < marks.size := hmarks ▸ Grammar.lhs_lt hp
  cases hmarked : marks[p.lhs] with
  | true =>
    have hholds : Nullable.holds marks p.lhs = true := by
      simp [Nullable.holds, hlhs, hmarked]
    simp [visitNullable, Grammar.production?_id hp, hlhs, hmarked, Nullable.visit_eq_self hholds]
  | false =>
    have hall := allM_holds_eq hmarks p.rhs
    rw [Nullable.visit]
    cases h : p.rhs.all (Nullable.holds marks) <;>
      simp [visitNullable, Grammar.production?_id hp, hlhs, hmarked, hall, h, set_eq]

section

variable {sets : First.Sets} (hsets : sets.size = g.nonterminalCount)

include hsets

theorem ofString_eq (u : List Nat) :
    ofString g marks sets u = some (First.ofString g marks sets u) := by
  induction u with
  | nil => rfl
  | cons c cs ih =>
    rw [ofString, First.ofString]
    by_cases hc : g.isTerminal c = true
    · simp [hc]
    · have hlt : c < g.nonterminalCount := by simpa [Grammar.isTerminal] using hc
      have hset : sets[c]? = some (First.setOf sets c) := by
        simp [First.setOf, hsets, hlt]
      have hmark : marks[c]? = some (Nullable.holds marks c) := by
        simp [Nullable.holds, hmarks, hlt]
      cases hn : Nullable.holds marks c <;> simp [hc, hset, hmark, hn, ih]

theorem visitFirst_eq {p : Production} (hp : p ∈ g.productions) :
    visitFirst g marks sets p.id = some (First.visit g marks sets p) := by
  have hlhs : p.lhs < sets.size := hsets ▸ Grammar.lhs_lt hp
  simp [visitFirst, Grammar.production?_id hp, ofString_eq hmarks hsets, modify_eq hlhs, First.visit]

end

section

variable {firsts : First.Sets} (hfirsts : firsts.size = g.nonterminalCount) {sets : Follow.Sets}
  (hsets : sets.size = g.nonterminalCount) {lhs : Nat} (hlhs : lhs < g.nonterminalCount)

include hfirsts hsets hlhs

theorem after_eq (rest : List Nat) : after g marks firsts sets lhs rest =
    some (Follow.after g marks firsts sets lhs rest) := by
  have hset : sets[lhs]? = some (Follow.setOf sets lhs) := by
    simp [Follow.setOf, hsets, hlhs]
  have hall := allM_holds_eq hmarks rest
  rw [Follow.after]
  cases h : rest.all (Nullable.holds marks) <;>
    simp [after, ofString_eq hmarks hfirsts, hall, h, hset]

theorem walk_eq (rest : List Nat) : walk g marks firsts lhs rest sets =
    some (Follow.walk g marks firsts lhs rest sets) := by
  induction rest generalizing sets with
  | nil => rfl
  | cons c rest ih =>
    rw [walk, Follow.walk]
    by_cases hc : g.isTerminal c = true
    · simp [hc, ih hsets]
    · have hlt : c < sets.size := by simpa [Grammar.isTerminal, hsets] using hc
      simp [hc, after_eq hmarks hfirsts hsets hlhs, modify_eq hlt, ih, hsets]

end

end

section

variable (hps : ∀ p ∈ ps, p ∈ g.productions)

include hps

theorem nullable_eq : nullable g (ps.map Production.id) = some (Nullable.ofProductions g ps) := by
  apply stabilize_eq fun marks => marks.size = g.nonterminalCount
  · intro marks hmarks
    rw [List.foldlM_map]
    apply foldlM_eq (fun marks => marks.size = g.nonterminalCount) _ _ hmarks
    · exact fun marks hmarks p hp => visitNullable_eq hmarks (hps p hp)
    · exact fun marks hmarks p _ => (Nullable.size_visit marks p).trans hmarks
  · exact fun marks hmarks => (Nullable.size_sweep ps marks).trans hmarks
  · simp
  · exact Nullable.sweep_ofProductions g ps

theorem firsts_eq {marks : Nullable.Marks} (hmarks : marks.size = g.nonterminalCount) :
    firsts g marks (ps.map Production.id) = some (First.ofProductions g marks ps) := by
  apply stabilize_eq (Within g.nonterminalCount g.terminals)
  · intro sets hsets
    rw [List.foldlM_map]
    apply foldlM_eq (Within g.nonterminalCount g.terminals) _ _ hsets
    · exact fun sets hsets p hp => visitFirst_eq hmarks hsets.1 (hps p hp)
    · exact fun sets hsets p hp => First.within_visit hsets (hps p hp)
  · exact fun sets hsets => First.within_sweep hps hsets
  · exact within_replicate _ _
  · exact First.sweep_ofProductions hps

theorem follows_eq {marks : Nullable.Marks} (hmarks : marks.size = g.nonterminalCount)
    {firsts : First.Sets} (hfirsts : Within g.nonterminalCount g.terminals firsts) :
    follows g marks firsts (ps.map Production.id) =
      some (Follow.ofProductions g marks firsts ps) := by
  have hseed : set (Array.replicate g.nonterminalCount OrdSet.empty) g.augmentedStart
      (OrdSet.ofList [.endOfInput]) = some (Follow.seed g) :=
    set_eq (by simp [Grammar.nonterminalCount]) _
  rw [follows, hseed]
  apply stabilize_eq (Within g.nonterminalCount (Follow.lookaheads g))
  · intro sets hsets
    rw [List.foldlM_map]
    apply foldlM_eq (Within g.nonterminalCount (Follow.lookaheads g)) _ _ hsets
    · intro sets hsets p hp
      have hlhs := Grammar.lhs_lt (hps p hp)
      simp [visitFollow, Grammar.production?_id (hps p hp), Follow.visit,
        walk_eq hmarks hfirsts.1 hsets.1 hlhs]
    · exact fun sets hsets p hp =>
        Follow.within_walk hfirsts (fun _ hc => (Grammar.rhs_lt (hps p hp) hc).1) hsets
  · exact fun sets hsets => Follow.within_sweep hps hfirsts hsets
  · exact Follow.within_seed
  · exact Follow.sweep_ofProductions hps hfirsts

/-- Every lookup that is made on the way to the facts finds what it looks for. -/
theorem facts_eq : facts g (ps.map Production.id) = some (Facts.ofProductions g ps) := by
  have hmarks : (Nullable.ofProductions g ps).size = g.nonterminalCount :=
    Nullable.size_ofProductions
  have hfirsts : Within g.nonterminalCount g.terminals
      (First.ofProductions g (Nullable.ofProductions g ps) ps) := First.within_ofProductions hps
  simp [facts, nullable_eq hps, firsts_eq hps hmarks, follows_eq hps hmarks hfirsts,
    Facts.ofProductions]

end

/-- The grammar `S → a S b | ε`, `U → a U` has no production 4. -/
example : facts .balanced [1, 4] = none := by decide

end SimpleLR.Checked
