import SimpleLR.Automaton.Basic

/-!
# Records of the action table

The printed table has a record for each thing that can be done in a state: for each symbol by ascending
code, and last for the end of the input.
-/
namespace SimpleLR

/-- What a record is about: a symbol of the grammar or the end of the input. -/
inductive Column
  | symbol (code : Nat)
  | endOfInput
deriving DecidableEq

/-- What a record says. -/
inductive Entry
  | shift (target : Nat)
  | goto (target : Nat)
  | reduce (production : Nat)
  | accept
deriving DecidableEq

/-- A line of the printed table. -/
structure Record where
  state : Nat
  column : Column
  entry : Entry
deriving DecidableEq

namespace Record

def columnName (g : Grammar) : Column → String
  | .symbol code => g.symbolName code
  | .endOfInput => "$"

def entryText : Entry → String
  | .shift target => s!"Shift({target})"
  | .goto target => s!"Goto({target})"
  | .reduce production => s!"Reduce({production})"
  | .accept => "Accept"

def text (g : Grammar) (r : Record) : String :=
  s!"A,{r.state},{columnName g r.column},{entryText r.entry}"

variable (g : Grammar) (a : Automaton) (number : Nat) (s : State)

/-- What can be done on a symbol: a transition goes before a reduction. -/
def onSymbol? (code : Nat) : Option Entry :=
  match s.transition? code with
  | some target => some (if g.isTerminal code then .shift target else .goto target)
  | none => (a.reduces.get? number (.terminal code)).map (.reduce ·.production)

/-- What can be done at the end of the input: to reduce by production 0 is to accept. -/
def onEnd? : Option Entry :=
  (a.reduces.get? number .endOfInput).map fun item =>
    if item.production = g.startProduction.id then .accept else .reduce item.production

/-- The records of a state. -/
def ofState : List Record :=
  (List.range g.symbolCount).filterMap (fun code =>
    (onSymbol? g a number s code).map (⟨number, .symbol code, ·⟩)) ++
  ((onEnd? g a number).map (⟨number, .endOfInput, ·⟩)).toList

end Record

end SimpleLR
