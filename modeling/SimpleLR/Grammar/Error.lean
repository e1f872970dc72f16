import SimpleLR.Text.Quoted

/-!
# Errors of grammar building
-/
namespace SimpleLR

inductive SymbolKind
  | nonterminal
  | terminal
deriving DecidableEq

def SymbolKind.describe : SymbolKind → String
  | nonterminal => "nonterminal"
  | terminal => "terminal"

/-- Why a step of building a grammar was refused. -/
inductive GrammarError
  /-- The name was declared before, as a terminal or as a nonterminal. -/
  | duplicateSymbol (name : String)
  /-- No symbol of this name was declared. -/
  | unknownSymbol (name : String)
  /-- The handle counts further than the symbols of its kind that were declared. -/
  | invalidHandle (kind : SymbolKind) (index declared : Nat)
  /-- A terminal was given where only a nonterminal can stand. -/
  | leftSideNotNonterminal (name : String)
  /-- No start symbol was chosen. -/
  | missingStart
  /-- The name belongs to the augmented start symbol. -/
  | reservedName (name : String)
deriving DecidableEq

/-- The message about an error, when it is given how names are quoted. -/
def GrammarError.messageBy (quote : String → String) : GrammarError → String
  | duplicateSymbol name => s!"symbol {quote name} is declared more than once"
  | unknownSymbol name => s!"unknown symbol {quote name}"
  | invalidHandle kind index declared =>
    s!"invalid {kind.describe} handle {index} (only {declared} declared)"
  | leftSideNotNonterminal name => s!"left-hand side {quote name} is not a nonterminal"
  | missingStart => "no start symbol declared"
  | reservedName name => s!"symbol name {quote name} is reserved"

def GrammarError.message (e : GrammarError) : String := e.messageBy Text.quote

end SimpleLR
