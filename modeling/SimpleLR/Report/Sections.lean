import SimpleLR.Grammar.Listing
import SimpleLR.Report.Records
import SimpleLR.Tables

/-!
# Reports

A report shows the productions, the items of each state, the FIRST and FOLLOW sets and the action
table. Every line is a record whose first field tells its kind.
-/
namespace SimpleLR

namespace Report

def lines (ls : List String) : String := String.join (ls.map (· ++ "\n"))

variable (g : Grammar)

def productionLine (p : Production) : String :=
  s!"P,{p.id},{g.symbolName p.lhs} -> {g.spacedNames p.rhs}"

/-- The productions by ascending id. -/
def productions : String :=
  lines ([s!"PS,{g.productions.length}", ""] ++ g.productions.map (productionLine g))

def stateLines (number : Nat) (s : State) : List String :=
  s.items.toList.map (fun i => s!"C,{number},{i.render g}") ++ [""]

/-- The items of each state, an empty line after each state. -/
def states (ss : Array State) : String :=
  lines ([s!"CS,{ss.size}", ""] ++ ss.toList.zipIdx.flatMap fun (s, n) => stateLines g n s)

/-- Names in braces, a comma and a space after each. -/
def braced (names : List String) : String :=
  "\x7b" ++ String.join (names.map (· ++ ", ")) ++ "\x7d"

def firstLine (f : Facts) (nonterminal : Nat) : String :=
  let empty := if f.isNullable nonterminal then ["`empty'"] else []
  s!"FIRST,{g.symbolName nonterminal}," ++
    braced (empty ++ (f.first nonterminal).toList.map g.symbolName)

def followLine (f : Facts) (nonterminal : Nat) : String :=
  s!"FOLLOW,{g.symbolName nonterminal}," ++
    braced ((f.follow nonterminal).toList.map g.lookaheadName)

/-- The FIRST and FOLLOW sets of the nonterminals. -/
def sets (f : Facts) : String :=
  lines (g.nonterminals.map (firstLine g f) ++ [""] ++ g.nonterminals.map (followLine g f))

/-- Whether the facts have an entry for each nonterminal of the grammar and name symbols of it only. -/
def covers (f : Facts) : Bool :=
  g.nonterminals.all fun nt =>
    (f.nullable? nt).isSome && (f.first? nt).isSome && (f.follow? nt).isSome &&
    (f.first nt).toList.all (· < g.symbolCount) &&
    (f.follow nt).toList.all fun
      | .terminal code => code < g.symbolCount
      | .endOfInput => true

/-- The sets of facts that may come from another grammar. -/
def sets? (f : Facts) : Option String := if covers g f then some (sets g f) else none

/-- What can be done in each state, an empty line after each state. -/
def table (a : Automaton) : String :=
  lines ([s!"TS,{a.states.size}", ""] ++
    a.states.toList.zipIdx.flatMap fun (s, n) =>
      (Record.ofState g a n s).map (Record.text g) ++ [""])

end Report

/-- The whole report on tables. -/
def Tables.report (t : Tables) : String :=
  Report.productions t.grammar ++ "\n" ++ Report.states t.grammar t.automaton.states ++
    Report.sets t.grammar t.facts ++ "\n" ++ Report.table t.grammar t.automaton

end SimpleLR
