import SimpleLR.Facts.Nullable
import SimpleLR.OrdSet

/-!
# FIRST sets

The FIRST set of a nonterminal holds the terminals that can begin what it derives. One sweep over a
list of productions adds to each left side what the right side can begin with, as far as the sets are
known by then.
-/
namespace SimpleLR.First

/-- One set of terminal codes per nonterminal, at its code. -/
abbrev Sets := Array (OrdSet Nat)

def setOf (sets : Sets) (code : Nat) : OrdSet Nat := sets.getD code OrdSet.empty

/-- The terminals that can begin a string of symbols, seen past its nullable beginnings. -/
def ofString (g : Grammar) (marks : Nullable.Marks) (sets : Sets) : List Nat → List Nat
  | [] => []
  | c :: cs =>
    if g.isTerminal c then [c]
    else (setOf sets c).toList ++ if Nullable.holds marks c then ofString g marks sets cs else []

def visit (g : Grammar) (marks : Nullable.Marks) (sets : Sets) (p : Production) : Sets :=
  let codes := ofString g marks sets p.rhs
  sets.modify p.lhs (·.insertAll codes)

def sweep (g : Grammar) (marks : Nullable.Marks) (ps : List Production) (sets : Sets) : Sets :=
  ps.foldl (visit g marks) sets

/-- The FIRST sets that the given productions bring about. -/
def ofProductions (g : Grammar) (marks : Nullable.Marks) (ps : List Production) : Sets :=
  stabilize (sweep g marks ps) (g.nonterminalCount * g.terminalCount)
    (Array.replicate g.nonterminalCount OrdSet.empty)

end SimpleLR.First
