import SimpleLR.Item.Closure
import Std.Data.TreeMap.Basic

/-!
# The canonical collection of item sets

The states are found from the closure of the first item on: each state in turn is tried with each
symbol in ascending order, and an item set that has not been met before becomes the next state.
-/
namespace SimpleLR

/-- A state: its items, and for each symbol code the state that follows on it. -/
structure State where
  items : ItemSet
  targets : Array (Option Nat)
deriving DecidableEq

/-- The state that follows on a symbol. -/
def State.transition? (s : State) (symbol : Nat) : Option Nat := s.targets[symbol]?.join

/-- The state that follows on a lookahead; none does on the end of the input. -/
def State.shift? (s : State) : Lookahead → Option Nat
  | .terminal code => s.transition? code
  | .endOfInput => none

/-- A search for states: the item sets met so far, each at its number and with its number, and the
rows of those that have been tried. -/
structure Exploration where
  found : Array ItemSet
  numbers : Std.TreeMap ItemSet Nat
  rows : Array (Array (Option Nat))

namespace Exploration

/-- The number of an item set, which is the next free one if the set is new. -/
def number (e : Exploration) (set : ItemSet) : Exploration × Nat :=
  match e.numbers[set]? with
  | some n => (e, n)
  | none =>
    let n := e.found.size
    ({ e with found := e.found.push set, numbers := e.numbers.insert set n }, n)

/-- Nothing but the first item set is known. -/
def start (g : Grammar) : Exploration :=
  (number ⟨#[], {}, #[]⟩ (closure g [Item.initial g.startProduction])).1

/-- Tries the moves of an item set on each of the symbols. -/
def tryAll (g : Grammar) (moves : List (Nat × Item)) :
    List Nat → Exploration → Exploration × List (Option Nat)
  | [], e => (e, [])
  | symbol :: symbols, e =>
    match movesOn moves symbol with
    | [] =>
      let (e, row) := tryAll g moves symbols e
      (e, none :: row)
    | i :: is =>
      let (e, target) := e.number (closure g (i :: is))
      let (e, row) := tryAll g moves symbols e
      (e, some target :: row)

/-- Tries the first item set that has not been tried. -/
def step (g : Grammar) (e : Exploration) : Option Exploration :=
  match e.found[e.rows.size]? with
  | none => none
  | some set =>
    let (e, row) := tryAll g (moves g set) (List.range g.symbolCount) e
    some { e with rows := e.rows.push row.toArray }

end Exploration

namespace Grammar

/-- How many items a grammar has: one for each place of the dot in each production. -/
def itemCount (g : Grammar) : Nat := g.productions.foldr (fun p n => p.rhs.length + 1 + n) 0

/-- The canonical collection. There are no more states than sets of items. -/
def states (g : Grammar) : Array State :=
  let e := iterate (Exploration.step g) (Nat.pow 2 g.itemCount) (Exploration.start g)
  Array.zipWith State.mk e.found e.rows

end Grammar

end SimpleLR
