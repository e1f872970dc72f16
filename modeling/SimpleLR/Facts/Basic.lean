import SimpleLR.Facts.Follow

/-!
# Facts about the nonterminals of a grammar

Which nonterminals are nullable, and their FIRST and FOLLOW sets. Each of the three comes from the
ones before it; all are found by visiting the productions in a given order, which the result does not
depend on when every production is in it.
-/
namespace SimpleLR

/-- The facts about each nonterminal, at its code. -/
structure Facts where
  nullable : Nullable.Marks
  firsts : First.Sets
  follows : Follow.Sets
deriving DecidableEq

namespace Facts

/-- The facts that the given productions bring about. -/
def ofProductions (g : Grammar) (ps : List Production) : Facts :=
  let marks := Nullable.ofProductions g ps
  let firsts := First.ofProductions g marks ps
  ⟨marks, firsts, Follow.ofProductions g marks firsts ps⟩

/-- The facts about a grammar. -/
def ofGrammar (g : Grammar) : Facts := ofProductions g g.productions

/-- The facts that the productions with the given ids bring about, if the grammar has them all. -/
def inOrder? (g : Grammar) (ids : List Nat) : Option Facts :=
  (ids.mapM g.production?).map (ofProductions g)

variable (f : Facts)

def nullable? (nonterminal : Nat) : Option Bool := f.nullable[nonterminal]?

def first? (nonterminal : Nat) : Option (OrdSet Nat) := f.firsts[nonterminal]?

def follow? (nonterminal : Nat) : Option (OrdSet Lookahead) := f.follows[nonterminal]?

def isNullable (nonterminal : Nat) : Bool := Nullable.holds f.nullable nonterminal

def first (nonterminal : Nat) : OrdSet Nat := First.setOf f.firsts nonterminal

def follow (nonterminal : Nat) : OrdSet Lookahead := Follow.setOf f.follows nonterminal

/-- How many nonterminals are nullable. -/
def nullableCount : Nat := f.nullable.count true

end Facts

end SimpleLR
