import SimpleLR.Grammar.Basic
import SimpleLR.Iterate

/-!
# Nullable nonterminals

One sweep over a list of productions marks a left side as nullable when every symbol of the right
side is marked. Sweeping goes on until nothing changes.
-/
namespace SimpleLR.Nullable

/-- One mark per nonterminal, at its code. -/
abbrev Marks := Array Bool

/-- Whether a symbol is marked; a terminal never is. -/
def holds (marks : Marks) (code : Nat) : Bool := marks.getD code false

/-- Draws the conclusion of one production. -/
def visit (marks : Marks) (p : Production) : Marks :=
  if p.rhs.all (holds marks) then marks.setIfInBounds p.lhs true else marks

def sweep (ps : List Production) (marks : Marks) : Marks := ps.foldl visit marks

/-- Which nonterminals of a grammar come to nothing by the given productions. -/
def ofProductions (g : Grammar) (ps : List Production) : Marks :=
  stabilize (sweep ps) g.nonterminalCount (Array.replicate g.nonterminalCount false)

end SimpleLR.Nullable
