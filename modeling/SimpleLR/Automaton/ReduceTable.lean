import SimpleLR.Automaton.Collection
import SimpleLR.Automaton.Conflict
import SimpleLR.Facts.Basic

/-!
# Reduce tables

A complete item may be reduced by when the lookahead is in the FOLLOW set of its left side. The table
says, for each state and lookahead, which item that is. Filling it meets the states, their items and
the lookaheads in ascending order and stops at the first conflict.
-/
namespace SimpleLR

/-- One row per state, with a cell for each symbol code and a last one for the end of the input. -/
structure ReduceTable where
  symbolCount : Nat
  rows : Array (Array (Option Item))
deriving DecidableEq

namespace ReduceTable

/-- A row in the making. -/
abbrev Row := Array (Option Item)

/-- The item to reduce by in a state on a lookahead. -/
def get? (t : ReduceTable) (state : Nat) (lookahead : Lookahead) : Option Item :=
  (t.rows[state]?.bind (·[lookahead.column t.symbolCount]?)).join

variable (g : Grammar) (f : Facts) (number : Nat) (s : State)

/-- Why an item cannot have the cell of a lookahead: another production holds it, or the state can
shift that terminal. -/
def conflict? (cell : Option Item) (i : Item) (lookahead : Lookahead) : Option Conflict :=
  match cell.filter (·.production ≠ i.production), lookahead, s.shift? lookahead with
  | some other, _, _ => some (.reduceReduce number other.production i.production lookahead)
  | none, .terminal code, some target => some (.shiftReduce number i.production code target)
  | none, _, _ => none

/-- Gives an item the cell of a lookahead. -/
def place (i : Item) (row : Row) (lookahead : Lookahead) : Except TableError Row :=
  let column := lookahead.column g.symbolCount
  match row[column]? with
  | none => .error (.dangling (.column column))
  | some cell =>
    match conflict? number s cell i lookahead with
    | some c => .error (.conflict c)
    | none => .ok (row.setIfInBounds column (some i))

/-- Gives an item its cells, if it is complete. -/
def placeItem (row : Row) (i : Item) : Except TableError Row :=
  match g.production? i.production with
  | none => .error (.dangling (.production i.production))
  | some p =>
    if i.dot = p.rhs.length then
      match f.follow? i.lhs with
      | none => .error (.dangling (.nonterminal i.lhs))
      | some follow => follow.toList.foldlM (place g number s i) row
    else .ok row

/-- The row of a state. -/
def fillRow : Except TableError Row :=
  s.items.toList.foldlM (placeItem g f number s) (Array.replicate (g.symbolCount + 1) none)

/-- The table for the given states. -/
def build (states : Array State) : Except TableError ReduceTable := do
  let rows ← states.toList.zipIdx.mapM fun (s, number) => fillRow g f number s
  return ⟨g.symbolCount, rows.toArray⟩

end ReduceTable

end SimpleLR
