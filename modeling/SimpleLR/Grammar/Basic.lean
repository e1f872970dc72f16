import SimpleLR.Lookahead

/-!
# Context-free grammars in integer codes

A grammar numbers its symbols: first the declared nonterminals, then the augmented start symbol, then
the terminals. Production 0 derives the declared start symbol from the augmented one, and the declared
productions follow it from 1 on.
-/
namespace SimpleLR

/-- A typed value slot of a symbol, carried along for whoever uses the tables. -/
structure Attribute where
  type : String
  name : String
deriving DecidableEq

/-- A grammar symbol with its value slots. -/
structure Symbol where
  name : String
  attributes : List Attribute
deriving DecidableEq

/-- The symbol that every grammar adds as the left side of production 0. -/
def Symbol.augmentedStart : Symbol := ⟨"!start", []⟩

/-- A numbered production in symbol codes, with the texts of its actions. -/
structure Production where
  id : Nat
  lhs : Nat
  rhs : List Nat
  actions : List String
deriving DecidableEq

def Production.isEpsilon (p : Production) : Bool := p.rhs.isEmpty

namespace Production

/-- Files the id of a production under its left side. -/
def file (ids : Array (Array Nat)) (p : Production) : Array (Array Nat) := ids.modify p.lhs (·.push p.id)

/-- The ids of productions, filed under so many nonterminals. -/
def filed (nonterminals : Nat) (productions : List Production) : Array (Array Nat) :=
  productions.foldl file (Array.replicate nonterminals #[])

theorem file_getElem? (ids : Array (Array Nat)) (p : Production) (A : Nat) :
    (file ids p)[A]? = ids[A]?.map (· ++ if p.lhs = A then #[p.id] else #[]) := by
  by_cases hA : p.lhs = A <;> cases h : ids[A]? <;> simp [file, Array.getElem?_modify, hA, h]

theorem foldl_file_getElem? (ps : List Production) (ids : Array (Array Nat)) (A : Nat) :
    (ps.foldl file ids)[A]? =
      ids[A]?.map (· ++ ((ps.filter (·.lhs = A)).map Production.id).toArray) := by
  induction ps generalizing ids with
  | nil => simp
  | cons p ps ih =>
    rw [List.foldl_cons, ih, file_getElem?, Option.map_map]
    congr 1
    ext1 l
    by_cases hA : p.lhs = A <;> simp [hA]

/-- What is filed under a nonterminal are the ids of its productions, in their order. -/
theorem filed_getElem? (n : Nat) (ps : List Production) (A : Nat) :
    (filed n ps)[A]? =
      if A < n then some ((ps.filter (·.lhs = A)).map Production.id).toArray else none := by
  by_cases hA : A < n <;> simp [filed, foldl_file_getElem?, hA]

end Production

/-- A context-free grammar with an augmented start symbol. -/
@[ext] structure Grammar where
  name : String
  package : String
  /-- All symbols, each at its code. -/
  symbols : List Symbol
  /-- The code of the augmented start symbol, which is the number of declared nonterminals. -/
  augmentedStart : Nat
  /-- The code of the declared start symbol. -/
  start : Nat
  /-- The declared productions. -/
  rules : List Production
  /-- The ids of the productions of each nonterminal. -/
  byLhs : Array (Array Nat) :=
    Production.filed (augmentedStart + 1) (⟨0, augmentedStart, [start], []⟩ :: rules)
  start_lt : start < augmentedStart
  symbols_augmentedStart : symbols[augmentedStart]? = some Symbol.augmentedStart
  names_nodup : (symbols.map Symbol.name).Nodup
  rules_ids : rules.map Production.id = List.range' 1 rules.length
  rules_sides : ∀ p ∈ rules,
    p.lhs < augmentedStart ∧ ∀ c ∈ p.rhs, c < symbols.length ∧ c ≠ augmentedStart
  /-- The ids are those of the productions that have the nonterminal on their left side. -/
  byLhs_getElem? : ∀ A, byLhs[A]? = if A < augmentedStart + 1 then
      some (((⟨0, augmentedStart, [start], []⟩ :: rules).filter (·.lhs = A)).map Production.id).toArray
    else none := by exact Production.filed_getElem? _ _

namespace Grammar

variable (g : Grammar)

def symbolCount : Nat := g.symbols.length

def nonterminalCount : Nat := g.augmentedStart + 1

def terminalCount : Nat := g.symbolCount - g.nonterminalCount

/-- The codes of the nonterminals, the augmented start symbol last. -/
def nonterminals : List Nat := List.range g.nonterminalCount

/-- The codes of the terminals. -/
def terminals : List Nat := List.range' g.nonterminalCount g.terminalCount

def isNonterminal (code : Nat) : Bool := code < g.nonterminalCount

/-- Whether a code lies past the nonterminals; a code past the last symbol does as well. -/
def isTerminal (code : Nat) : Bool := g.nonterminalCount ≤ code

def symbol? (code : Nat) : Option Symbol := g.symbols[code]?

def symbolName? (code : Nat) : Option String := (g.symbol? code).map Symbol.name

/-- The name of a symbol, and the empty text for a code that the grammar does not have. -/
def symbolName (code : Nat) : String := (g.symbolName? code).getD ""

/-- The code of the symbol with a name. -/
def symbolCode? (name : String) : Option Nat := g.symbols.findIdx? (·.name = name)

/-- The name of a terminal, and a dollar sign for the end of the input. -/
def lookaheadName : Lookahead → String
  | .terminal code => g.symbolName code
  | .endOfInput => "$"

/-- Production 0. -/
def startProduction : Production := ⟨0, g.augmentedStart, [g.start], []⟩

/-- All productions, each at its id. -/
def productions : List Production := g.startProduction :: g.rules

def production? (id : Nat) : Option Production := g.productions[id]?

/-- The productions that are filed under a code, if it is that of a nonterminal. -/
def productionsOf? (code : Nat) : Option (List Production) := do
  let ids ← g.byLhs[code]?
  ids.toList.mapM g.production?

/-- The productions of a nonterminal, by ascending id. -/
def productionsOf (nonterminal : Nat) : List Production := (g.productionsOf? nonterminal).getD []

variable {g}

theorem augmentedStart_lt_symbolCount : g.augmentedStart < g.symbolCount :=
  (List.getElem?_eq_some_iff.mp g.symbols_augmentedStart).1

theorem start_lt_symbolCount : g.start < g.symbolCount :=
  Nat.lt_trans g.start_lt augmentedStart_lt_symbolCount

theorem symbolName?_eq_some {c : Nat} (hc : c < g.symbolCount) :
    g.symbolName? c = some (g.symbolName c) := by
  obtain ⟨s, hs⟩ : ∃ s, g.symbol? c = some s := ⟨_, List.getElem?_eq_getElem hc⟩
  simp [symbolName, symbolName?, hs]

/-- A name belongs to one symbol only. -/
theorem symbolName?_inj {c d : Nat} {n : String} (hc : g.symbolName? c = some n)
    (hd : g.symbolName? d = some n) : c = d := by
  rw [symbolName?, symbol?, ← List.getElem?_map] at hc hd
  have hlt := (List.getElem?_eq_some_iff.mp hc).1
  exact (List.getElem?_inj hlt g.names_nodup).mp (hc.trans hd.symm)

theorem symbol?_inj {c d : Nat} {s : Symbol} (hc : g.symbol? c = some s) (hd : g.symbol? d = some s) :
    c = d := by
  apply symbolName?_inj (g := g) (n := s.name)
  · simp [symbolName?, hc]
  · simp [symbolName?, hd]

/-- The productions are numbered from 0 on. -/
theorem productions_map_id :
    g.productions.map Production.id = List.range g.productions.length := by
  simp [productions, startProduction, g.rules_ids, List.range_eq_range', List.range'_succ]

theorem id_of_production? {i : Nat} {p : Production} (h : g.production? i = some p) : p.id = i := by
  have hmap : (g.productions.map Production.id)[i]? = some p.id := by
    simp [show g.productions[i]? = some p from h]
  rw [productions_map_id] at hmap
  have := (List.getElem?_eq_some_iff.mp hmap).2
  simpa using this.symm

theorem mem_productions_of_production? {i : Nat} {p : Production} (h : g.production? i = some p) :
    p ∈ g.productions :=
  List.mem_of_getElem? h

theorem production?_id {p : Production} (h : p ∈ g.productions) : g.production? p.id = some p := by
  obtain ⟨i, hi⟩ := List.mem_iff_getElem?.mp h
  rw [id_of_production? hi]
  exact hi

/-- The ids are filed as if one production had been taken after another. -/
theorem byLhs_eq : g.byLhs = Production.filed g.nonterminalCount g.productions := by
  apply Array.ext_getElem?
  intro A
  rw [g.byLhs_getElem?, Production.filed_getElem?]
  rfl

/-- A grammar is known without its index. -/
theorem ext_rules {h : Grammar} (hname : g.name = h.name) (hpackage : g.package = h.package)
    (hsymbols : g.symbols = h.symbols) (haugmented : g.augmentedStart = h.augmentedStart)
    (hstart : g.start = h.start) (hrules : g.rules = h.rules) : g = h := by
  refine Grammar.ext hname hpackage hsymbols haugmented hstart hrules ?_
  simp only [byLhs_eq, nonterminalCount, productions, startProduction, haugmented, hstart, hrules]

/-- What is filed under a nonterminal is there, and it is all of its productions. -/
theorem productionsOf?_eq (A : Nat) : g.productionsOf? A =
    if g.isNonterminal A then some (g.productions.filter (·.lhs = A)) else none := by
  have hfound : ∀ ps : List Production, (∀ p ∈ ps, p ∈ g.productions) →
      (ps.map Production.id).mapM g.production? = some ps := by
    intro ps hps
    induction ps with
    | nil => rfl
    | cons p ps ih =>
      obtain ⟨hp, hps⟩ := List.forall_mem_cons.mp hps
      simp [production?_id hp, ih hps]
  have hids := hfound (g.productions.filter (·.lhs = A)) fun p hp => (List.mem_filter.mp hp).1
  rw [productionsOf?, byLhs_eq, Production.filed_getElem?]
  by_cases hA : A < g.nonterminalCount
  · simpa [isNonterminal, hA] using hids
  · simp [isNonterminal, hA]

theorem lhs_lt {p : Production} (h : p ∈ g.productions) : p.lhs < g.nonterminalCount := by
  rcases List.mem_cons.mp h with rfl | h
  · exact Nat.lt_succ_self _
  · exact Nat.lt_succ_of_lt (g.rules_sides p h).1

/-- The productions of a nonterminal are those with it on their left side. -/
theorem productionsOf_eq_filter (A : Nat) :
    g.productionsOf A = g.productions.filter (·.lhs = A) := by
  rw [productionsOf, productionsOf?_eq]
  split
  · rfl
  · rename_i hA
    rw [Option.getD_none, eq_comm, List.filter_eq_nil_iff]
    rintro p hp heq
    obtain rfl := of_decide_eq_true heq
    exact hA (decide_eq_true (lhs_lt hp))

@[simp] theorem mem_productionsOf {p : Production} {nonterminal : Nat} :
    p ∈ g.productionsOf nonterminal ↔ p ∈ g.productions ∧ p.lhs = nonterminal := by
  simp [productionsOf_eq_filter]

theorem lhs_lt_symbolCount {p : Production} (h : p ∈ g.productions) : p.lhs < g.symbolCount :=
  Nat.lt_of_lt_of_le (lhs_lt h) augmentedStart_lt_symbolCount

/-- No right side holds the augmented start symbol. -/
theorem rhs_lt {p : Production} (h : p ∈ g.productions) {c : Nat} (hc : c ∈ p.rhs) :
    c < g.symbolCount ∧ c ≠ g.augmentedStart := by
  rcases List.mem_cons.mp h with rfl | h
  · obtain rfl := List.mem_singleton.mp hc
    exact ⟨start_lt_symbolCount, Nat.ne_of_lt g.start_lt⟩
  · exact (g.rules_sides p h).2 c hc

end Grammar

end SimpleLR
