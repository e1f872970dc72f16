import SimpleLR.Grammar.Build

/-!
# Grammars written down by names

An outline lists the symbols, rules and start symbol of a grammar by their names. It is declared part
by part, and the first refusal ends it.
-/
namespace SimpleLR

/-- A rule of an outline. -/
structure Rule where
  lhs : String
  rhs : List String
  actions : List String

/-- A grammar by names. -/
structure Outline where
  name : String
  package : String
  nonterminals : List Symbol
  terminals : List Symbol
  rules : List Rule
  start : Option String

/-- The builder after an operation that must not be refused. -/
def Builder.require {M : Type → Type} [IndexMap M] [LawfulIndexMap M] (b : Builder M) (op : Operation) :
    Except GrammarError (Builder M) :=
  match b.perform op with
  | (.ok _, b') => .ok b'
  | (.error e, _) => .error e

namespace Outline

/-- The builder that holds all declarations of an outline. -/
def declare (o : Outline) : Except GrammarError Builder := do
  let b ← o.nonterminals.foldlM (fun b s => b.require (.nonterminal s.name s.attributes))
    (Builder.empty o.name o.package)
  let b ← o.terminals.foldlM (fun b s => b.require (.terminal s.name s.attributes)) b
  let b ← o.rules.foldlM (fun b r => b.require (.rule r.lhs r.rhs r.actions)) b
  match o.start with
  | none => pure b
  | some name => do
    let h ← b.symbol name
    b.require (.start h)

/-- The grammar of an outline. -/
def grammar (o : Outline) : Except GrammarError Grammar := o.declare >>= Builder.build

end Outline

end SimpleLR
