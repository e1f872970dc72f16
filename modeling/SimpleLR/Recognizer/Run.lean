import SimpleLR.Automaton.Basic
import SimpleLR.Text.Quoted

/-!
# Runs of the recognizer

A run keeps a stack of states and a lookahead. It shifts and reduces as the automaton says until the
input is used up in the accepting state, or nothing is left to do. Symbols are read one at a time, each
when it becomes the lookahead. The stack is left as it is at the end, and cleared at the beginning of the
next run.
-/
namespace SimpleLR

/-- Why an input was refused. -/
inductive RecognizeError
  /-- The code read is not that of a terminal. -/
  | notTerminal (code : Nat)
  /-- Nothing can be done in the state on the lookahead. -/
  | unexpected (lookahead : Lookahead) (state : Nat)
  /-- A production is longer than the stack is high. -/
  | stackUnderflow
  /-- A reduction uncovered a state that does not go on. -/
  | noGoto (symbol state : Nat)
  /-- The automaton has no state to accept in. -/
  | noAcceptingState
  /-- The name is not that of a symbol. -/
  | unknownTerminal (name : String)
  /-- The automaton reduces by a production that the grammar does not have. -/
  | dangling (d : Dangling)
deriving DecidableEq

def RecognizeError.message (g : Grammar) : RecognizeError → String
  | notTerminal code => s!"symbol code {code} is not a terminal"
  | unexpected lookahead state => s!"unexpected {g.lookaheadName lookahead} in state {state}"
  | stackUnderflow => "stack underflow"
  | noGoto symbol state => s!"no goto on {g.symbolName symbol} from state {state}"
  | noAcceptingState => "automaton has no accepting state"
  | unknownTerminal name => s!"unknown terminal {Text.quote name}"
  | dangling d => d.message

/-- What a run has done so far. -/
structure Stats where
  tokens : Nat
  shifts : Nat
  reductions : Nat
deriving DecidableEq

def Stats.zero : Stats := ⟨0, 0, 0⟩

/-- How a run ended: with the productions reduced by, in order, or with an error. -/
structure Outcome where
  result : Except RecognizeError (List Nat)
  stats : Stats
  /-- The stack that is left behind, which is as it was when the run ended. -/
  stack : List Nat

/-- A moment of a run. -/
structure Config where
  /-- The states, the top one first. -/
  stack : List Nat
  lookahead : Lookahead
  /-- What has not been read. -/
  rest : List Nat
  /-- The productions reduced by, the latest first. -/
  reduced : List Nat
  stats : Stats
deriving DecidableEq

/-- What a step of a run leads to. -/
inductive Progress
  | running (c : Config)
  | ended (o : Outcome)

namespace Config

variable (g : Grammar) (a : Automaton) (c : Config)

/-- The run ends here. -/
def finish (result : Except RecognizeError (List Nat)) : Progress := .ended ⟨result, c.stats, c.stack⟩

/-- Forgets the stack and the record of the run before. -/
def clear : Config := { c with stack := [], stats := .zero }

/-- Reads the next lookahead. -/
def read : Progress :=
  match c.rest with
  | [] => .running { c with lookahead := .endOfInput }
  | code :: rest =>
    if g.isTerminal code && code < g.symbolCount then
      .running { c with
        lookahead := .terminal code
        rest := rest
        stats := { c.stats with tokens := c.stats.tokens + 1 } }
    else c.finish (.error (.notTerminal code))

/-- Reads the first lookahead and then puts state 0 on the stack. -/
def enter : Progress :=
  match c.read g with
  | .running c' => .running { c' with stack := 0 :: c'.stack }
  | .ended o => .ended o

/-- Goes to a state on the lookahead. -/
def shift (target : Nat) : Progress :=
  { c with
    stack := target :: c.stack
    stats := { c.stats with shifts := c.stats.shifts + 1 } }.read g

/-- Takes the states of a right side off the stack, and goes on from the state below. -/
def reduce (p : Production) : Progress :=
  match c.stack.drop p.rhs.length with
  | [] => c.finish (.error .stackUnderflow)
  | top :: below =>
    match a.transition? top p.lhs with
    | none => ({ c with stack := top :: below } : Config).finish (.error (.noGoto p.lhs top))
    | some target => .running { c with
        stack := target :: top :: below
        reduced := p.id :: c.reduced
        stats := { c.stats with reductions := c.stats.reductions + 1 } }

/-- Does what the automaton says. -/
def step : Progress :=
  match c.stack with
  | [] => c.finish (.error .stackUnderflow)
  | state :: _ =>
    match a.action? state c.lookahead with
    | some .accept => c.finish (.ok c.reduced.reverse)
    | some (.shift target) => c.shift g target
    | some (.reduce item) =>
      match g.production? item.production with
      | none => c.finish (.error (.dangling (.production item.production)))
      | some p => c.reduce a p
    | none => c.finish (.error (.unexpected c.lookahead state))

end Config

namespace Progress

/-- Where a run over an input begins, when the run before has left this stack and this record. -/
def begin (g : Grammar) (a : Automaton) (stack : List Nat) (stats : Stats) (input : List Nat) : Progress :=
  let c := Config.clear ⟨stack, .endOfInput, input, [], stats⟩
  match a.accepting with
  | none => c.finish (.error .noAcceptingState)
  | some _ => c.enter g

/-- Where a run over an input begins, when there has been no run before. -/
def start (g : Grammar) (a : Automaton) (input : List Nat) : Progress := begin g a [] .zero input

/-- Nothing of what the run before has left remains. -/
theorem begin_eq_start (g : Grammar) (a : Automaton) (stack : List Nat) (stats : Stats) (input : List Nat) :
    begin g a stack stats input = start g a input := by
  have hclear : Config.clear ⟨stack, .endOfInput, input, [], stats⟩ =
      Config.clear ⟨[], .endOfInput, input, [], .zero⟩ := rfl
  rw [start, begin, begin, hclear]

/-- Goes on for at most `fuel` steps; a run that has not ended by then has no outcome. -/
def run (g : Grammar) (a : Automaton) : (fuel : Nat) → Progress → Option Outcome
  | _, ended o => some o
  | 0, running _ => none
  | fuel + 1, running c => run g a fuel (c.step g a)

/-- The moments that a run goes through in at most `fuel` steps. -/
def moments (g : Grammar) (a : Automaton) : (fuel : Nat) → Progress → List Config
  | _, ended _ => []
  | 0, running _ => []
  | fuel + 1, running c => c :: moments g a fuel (c.step g a)

/-- From the first progress a run passes the moments of the list, where each next one is what the step of the
one before has led to, and then it has come to the second progress. -/
inductive Passes (g : Grammar) (a : Automaton) : Progress → List Config → Progress → Prop
  | none (p : Progress) : Passes g a p [] p
  | step {c : Config} {cs : List Config} {p : Progress} (h : Passes g a (c.step g a) cs p) :
      Passes g a (.running c) (c :: cs) p

variable {g : Grammar} {a : Automaton}

/-- A run that ends passes the moments that are listed on its way to the outcome. -/
theorem passes_of_run {fuel : Nat} {p : Progress} {o : Outcome} (h : run g a fuel p = some o) :
    Passes g a p (moments g a fuel p) (.ended o) := by
  induction fuel generalizing p with
  | zero =>
    cases p with
    | running c => contradiction
    | ended o' => exact Option.some.inj h ▸ .none _
  | succ fuel ih =>
    cases p with
    | running c => exact .step (ih h)
    | ended o' => exact Option.some.inj h ▸ .none _

/-- A run that does not end within the fuel passes the moments that are listed, and there are as many. -/
theorem passes_of_run_eq_none {fuel : Nat} {p : Progress} (h : run g a fuel p = none) :
    (moments g a fuel p).length = fuel ∧ ∃ p', Passes g a p (moments g a fuel p) p' := by
  induction fuel generalizing p with
  | zero =>
    cases p with
    | running c => exact ⟨rfl, _, .none _⟩
    | ended o => contradiction
  | succ fuel ih =>
    cases p with
    | running c =>
      obtain ⟨hlength, p', hpasses⟩ := ih h
      exact ⟨congrArg Nat.succ hlength, p', .step hpasses⟩
    | ended o => contradiction

/-- What every step keeps holds at all moments that a run passes, and where it comes to. -/
theorem Passes.induction (P : Progress → Prop) (step : ∀ c, P (.running c) → P (c.step g a)) {p p' : Progress}
    {cs : List Config} (h : Passes g a p cs p') (hp : P p) : (∀ c ∈ cs, P (.running c)) ∧ P p' := by
  induction h with
  | none => exact ⟨by simp, hp⟩
  | @step c cs p _ ih =>
    obtain ⟨hcs, hp'⟩ := ih (step c hp)
    exact ⟨List.forall_mem_cons.mpr ⟨hp, hcs⟩, hp'⟩

end Progress

end SimpleLR
