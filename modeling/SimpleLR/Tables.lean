import SimpleLR.Automaton.Basic
import SimpleLR.Grammar.Build

/-!
# Tables of a grammar

A grammar, the facts about it and its automaton, made in one go.
-/
namespace SimpleLR

/-- All that a parser for a grammar needs. -/
structure Tables where
  grammar : Grammar
  facts : Facts
  automaton : Automaton

/-- Why declarations lead to no tables. -/
inductive BuildError
  | grammar (e : GrammarError)
  | table (e : TableError)
deriving DecidableEq

/-- The message about an error, when it is given how names are quoted. -/
def BuildError.messageBy (quote : String → String) : BuildError → String
  | grammar e => s!"grammar error: {e.messageBy quote}"
  | table e => e.message

def BuildError.message (e : BuildError) : String := e.messageBy Text.quote

namespace Tables

/-- The tables of a grammar, unless it has a conflict. -/
def build (g : Grammar) : Except TableError Tables := do
  let f := Facts.ofGrammar g
  let a ← Automaton.build g f
  return ⟨g, f, a⟩

/-- The tables of a builder's grammar. -/
def ofBuilder {M : Type → Type} [IndexMap M] [LawfulIndexMap M] (b : Builder M) :
    Except BuildError Tables := do
  let g ← b.build.mapError .grammar
  (build g).mapError .table

end Tables

end SimpleLR
