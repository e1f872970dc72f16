import SimpleLR.Facts.First

/-!
# FOLLOW sets

The FOLLOW set of a nonterminal holds the terminals that can come right after it, and the end of the
input if it can come last. Only the augmented start symbol is known to come last beforehand.
-/
namespace SimpleLR.Follow

/-- One set of lookaheads per nonterminal, at its code. -/
abbrev Sets := Array (OrdSet Lookahead)

def setOf (sets : Sets) (code : Nat) : OrdSet Lookahead := sets.getD code OrdSet.empty

/-- What can come after a symbol that has `rest` after it in a production for `lhs`. -/
def after (g : Grammar) (marks : Nullable.Marks) (firsts : First.Sets) (sets : Sets) (lhs : Nat)
    (rest : List Nat) : List Lookahead :=
  (First.ofString g marks firsts rest).map .terminal ++
    if rest.all (Nullable.holds marks) then (setOf sets lhs).toList else []

/-- Walks along the right side of a production for `lhs`. -/
def walk (g : Grammar) (marks : Nullable.Marks) (firsts : First.Sets) (lhs : Nat) :
    List Nat → Sets → Sets
  | [], sets => sets
  | c :: rest, sets =>
    if g.isTerminal c then walk g marks firsts lhs rest sets
    else
      let lookaheads := after g marks firsts sets lhs rest
      walk g marks firsts lhs rest (sets.modify c (·.insertAll lookaheads))

def visit (g : Grammar) (marks : Nullable.Marks) (firsts : First.Sets) (sets : Sets)
    (p : Production) : Sets :=
  walk g marks firsts p.lhs p.rhs sets

def sweep (g : Grammar) (marks : Nullable.Marks) (firsts : First.Sets) (ps : List Production)
    (sets : Sets) : Sets :=
  ps.foldl (visit g marks firsts) sets

/-- The sets before the first sweep. -/
def seed (g : Grammar) : Sets :=
  (Array.replicate g.nonterminalCount OrdSet.empty).setIfInBounds g.augmentedStart
    (OrdSet.ofList [.endOfInput])

/-- The FOLLOW sets that the given productions bring about. -/
def ofProductions (g : Grammar) (marks : Nullable.Marks) (firsts : First.Sets)
    (ps : List Production) : Sets :=
  stabilize (sweep g marks firsts ps) (g.nonterminalCount * (g.terminalCount + 1)) (seed g)

end SimpleLR.Follow
