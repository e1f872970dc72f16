import SimpleLR.Automaton.ReduceTable

/-!
# Parsing automata

An automaton holds the states with their transitions and the reduce table. Together they say what to
do in a state on a lookahead.
-/
namespace SimpleLR

/-- States, reduce table, and the state in which the start symbol has been read. -/
structure Automaton where
  states : Array State
  reduces : ReduceTable
  accepting : Option Nat
deriving DecidableEq

/-- What a parser does next. -/
inductive Action
  | shift (target : Nat)
  | reduce (item : Item)
  | accept
deriving DecidableEq

/-- The item of production 0 with the start symbol read. -/
def Grammar.acceptItem (g : Grammar) : Item := (Item.initial g.startProduction).advance

namespace Automaton

/-- The automaton of a grammar, with reductions by the given facts. -/
def build (g : Grammar) (f : Facts) : Except TableError Automaton := do
  let states := g.states
  let reduces ← ReduceTable.build g f states
  return ⟨states, reduces, states.findIdx? fun s => s.items.contains g.acceptItem⟩

variable (a : Automaton)

/-- Where a state goes on a symbol. -/
def transition? (state symbol : Nat) : Option Nat :=
  a.states[state]?.bind (·.transition? symbol)

/-- Where a state goes on a lookahead. -/
def shift? (state : Nat) (lookahead : Lookahead) : Option Nat :=
  a.states[state]?.bind (·.shift? lookahead)

/-- What to do in a state on a lookahead; nothing if the lookahead is not expected there. -/
def action? (state : Nat) (lookahead : Lookahead) : Option Action :=
  if lookahead = .endOfInput ∧ a.accepting = some state then some .accept
  else match a.shift? state lookahead with
    | some target => some (.shift target)
    | none => (a.reduces.get? state lookahead).map .reduce

end Automaton

end SimpleLR
