import SimpleLR.Grammar.Basic

/-!
# Grammar listings

The listing of a grammar shows every symbol with its value slots and every production with its
actions, the productions by their left sides.
-/
namespace SimpleLR.Grammar

variable (g : Grammar)

/-- A line that opens a block, its indented lines, and the line that closes it. -/
def block (head : String) (lines : List String) : String :=
  head ++ "\x7b\n" ++ String.join (lines.map fun line => "\t" ++ line ++ "\n") ++ "\x7d\n"

def symbolBlock (code : Nat) : String :=
  block (g.symbolName code)
    (((g.symbol? code).map Symbol.attributes).getD [] |>.map fun a => a.type ++ " " ++ a.name)

/-- The names of a list of symbols, a space after each. -/
def spacedNames (codes : List Nat) : String :=
  String.join (codes.map fun c => g.symbolName c ++ " ")

def productionBlock (p : Production) : String :=
  block (g.symbolName p.lhs ++ " -> " ++ g.spacedNames p.rhs) p.actions

/-- The whole grammar as text. -/
def listing : String :=
  "grammar name: " ++ g.name ++ "\n" ++
  "grammar package: " ++ g.package ++ "\n" ++
  "\nnon-terminals:\n" ++ String.join (g.nonterminals.map g.symbolBlock) ++
  "\nterminals:\n" ++ String.join (g.terminals.map g.symbolBlock) ++
  "\nproductions:\n" ++
    String.join (g.nonterminals.map fun nt =>
      String.join ((g.productionsOf nt).map g.productionBlock)) ++
  "\nstart: " ++ g.symbolName g.start ++ "\n"

end SimpleLR.Grammar
