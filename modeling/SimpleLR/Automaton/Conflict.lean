import SimpleLR.Lookahead

/-!
# Conflicts

A grammar with a conflict has no table: some state could go on in two ways on one lookahead, and there
are no precedences to choose by.
-/
namespace SimpleLR

/-- Two things to do in one state on one lookahead. -/
inductive Conflict
  /-- A production can be reduced by, and the symbol can be shifted to the target state. -/
  | shiftReduce (state production symbol target : Nat)
  /-- Two productions can be reduced by. -/
  | reduceReduce (state existing incoming : Nat) (lookahead : Lookahead)
deriving DecidableEq

namespace Conflict

def state : Conflict → Nat
  | shiftReduce state _ _ _ => state
  | reduceReduce state _ _ _ => state

def message : Conflict → String
  | shiftReduce state production symbol target =>
    s!"shift/reduce conflict in state {state}: reduce by production {production} " ++
      s!"vs. shift on symbol {symbol} to state {target}"
  | reduceReduce state existing incoming lookahead =>
    s!"reduce/reduce conflict in state {state}: productions {existing} and {incoming} " ++
      s!"on {lookahead.describe}"

end Conflict

/-- A number that refers to nothing, as when parts that belong to different grammars are put
together. -/
inductive Dangling
  | production (id : Nat)
  | nonterminal (code : Nat)
  | column (index : Nat)
deriving DecidableEq

def Dangling.message : Dangling → String
  | production id => s!"there is no production {id}"
  | nonterminal code => s!"there is no nonterminal {code}"
  | column index => s!"there is no column {index}"

/-- Why no table comes about. -/
inductive TableError
  | conflict (c : Conflict)
  | dangling (d : Dangling)
deriving DecidableEq

def TableError.message : TableError → String
  | conflict c => c.message
  | dangling d => d.message

end SimpleLR
