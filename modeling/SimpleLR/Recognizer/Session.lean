import SimpleLR.Recognizer.Run

/-!
# Recognizer sessions

A recognizer takes one input after another. It keeps the stack and the record of the last run until it
starts afresh on the next input. An input given by names is looked up as a whole before a run begins, so an
unknown name leaves both as they are.
-/
namespace SimpleLR

/-- A grammar and an automaton to recognize with, and what the last run has left. -/
structure Recognizer where
  grammar : Grammar
  automaton : Automaton
  /-- The stack of the last run, the top one first. -/
  states : List Nat
  stats : Stats

namespace Recognizer

/-- A recognizer that has not run. -/
def new (g : Grammar) (a : Automaton) : Recognizer := ⟨g, a, [], .zero⟩

variable (r : Recognizer)

/-- Where a run over an input begins. -/
def start (input : List Nat) : Progress := .begin r.grammar r.automaton r.states r.stats input

theorem start_eq (input : List Nat) : r.start input = .start r.grammar r.automaton input :=
  Progress.begin_eq_start _ _ _ _ input

/-- Runs on a list of symbol codes, if the run ends within the fuel. -/
def recognize (fuel : Nat) (input : List Nat) :
    Option (Except RecognizeError (List Nat) × Recognizer) :=
  (Progress.run r.grammar r.automaton fuel (r.start input)).map fun o =>
    (o.result, { r with states := o.stack, stats := o.stats })

/-- The code that a name stands for in an input. -/
def codeOf (name : String) : Except RecognizeError Nat :=
  match r.grammar.symbolCode? name with
  | some code => .ok code
  | none => .error (.unknownTerminal name)

/-- An input by codes or by names. -/
inductive Input
  | codes (codes : List Nat)
  | names (names : List String)

/-- The codes of an input. -/
def codesOf : Input → Except RecognizeError (List Nat)
  | .codes codes => .ok codes
  | .names names => names.mapM r.codeOf

/-- Runs on an input, if the run ends within the fuel. -/
def take (fuel : Nat) (input : Input) :
    Option (Except RecognizeError (List Nat) × Recognizer) :=
  match r.codesOf input with
  | .ok codes => r.recognize fuel codes
  | .error e => some (.error e, r)

/-- Runs on a list of symbol names, if the run ends within the fuel. -/
def recognizeNames (fuel : Nat) (names : List String) :
    Option (Except RecognizeError (List Nat) × Recognizer) :=
  r.take fuel (.names names)

end Recognizer

end SimpleLR
