import SimpleLR.Recognizer.Session
import SimpleLR.Recognizer.Transcript
import SimpleLR.Tables

/-!
# The journal

Making tables and recognizing inputs is accompanied by messages of three levels. The messages are a
matter of record only: they are read off the results, and only those that are asked for are made.
-/
namespace SimpleLR

/-- How much a message matters. -/
inductive Level
  | warn
  | debug
  | trace
deriving DecidableEq

/-- Whether messages of a level are kept when everything down to `least` is asked for. -/
def Level.keeps (least level : Level) : Bool :=
  match least, level with
  | .warn, .warn => true
  | .warn, _ => false
  | .debug, .trace => false
  | _, _ => true

/-- A message with its level. -/
structure Message where
  level : Level
  text : String
deriving DecidableEq

/-- Messages of one level, yet to be made. -/
structure Batch where
  level : Level
  texts : Unit → List String

/-- A single message, yet to be made. -/
def Batch.single (level : Level) (text : Unit → String) : Batch := ⟨level, fun u => [text u]⟩

namespace Journal

/-- Makes the messages of the levels asked for. -/
def messages (least : Level) (batches : List Batch) : List Message :=
  (batches.filter fun b => least.keeps b.level).flatMap fun b => (b.texts ()).map (⟨b.level, ·⟩)

variable (g : Grammar)

def grammarText : String :=
  s!"grammar {Text.quote g.name}: {g.nonterminalCount} nonterminals, " ++
    s!"{g.terminalCount} terminals, {g.productions.length} productions"

def factsText (f : Facts) : String :=
  s!"analysis of {Text.quote g.name}: {f.nullableCount} nullable nonterminals"

/-- The text on the discovery of a state. -/
def discoveryText (states : Array State) (source symbol target : Nat) : String :=
  let size := (states[target]?.map fun s => s.items.size).getD 0
  s!"state {source} on {g.symbolName symbol} -> new state {target} ({size} items)"

/-- The transitions of the states, state by state and by ascending symbol. -/
def transitions (states : Array State) : List (Nat × Nat × Nat) :=
  states.toList.zipIdx.flatMap fun (s, source) =>
    s.targets.toList.zipIdx.filterMap fun (target, symbol) => target.map (source, symbol, ·)

/-- The transitions that lead to a state with a higher number than all before them. -/
def discoveries : (known : Nat) → List (Nat × Nat × Nat) → List (Nat × Nat × Nat)
  | _, [] => []
  | known, (source, symbol, target) :: rest =>
    if target < known then discoveries known rest
    else (source, symbol, target) :: discoveries (target + 1) rest

/-- The item of a production with everything read. -/
def completeItem (id : Nat) : Item :=
  match g.production? id with
  | some p => ⟨id, p.rhs.length, p.lhs⟩
  | none => ⟨id, 0, 0⟩

def conflictText (c : Conflict) : String :=
  let item (id : Nat) : String := (completeItem g id).render g
  match c with
  | .shiftReduce _ production symbol _ =>
    s!"{c.message}: [{item production}] on {g.symbolName symbol}"
  | .reduceReduce _ existing incoming _ =>
    s!"{c.message}: [{item existing}] vs. [{item incoming}]"

/-- What accompanies the way from a grammar to its facts and states. -/
def ofStates (f : Facts) (states : Array State) : List Batch :=
  [.single .debug fun _ => grammarText g,
    .single .debug fun _ => factsText g f,
    ⟨.trace, fun _ => (discoveries 1 (transitions states)).map
      fun (source, symbol, target) => discoveryText g states source symbol target⟩,
    .single .debug fun _ => s!"{states.size} LR(0) states for {Text.quote g.name}"]

/-- What accompanies the making of tables that succeeded. -/
def ofTables (t : Tables) : List Batch :=
  let count := t.automaton.states.size
  ofStates t.grammar t.facts t.automaton.states ++
    [.single .debug fun _ => s!"reduce table built for {count} states",
      .single .debug fun _ => s!"SLR(1) tables for {Text.quote t.grammar.name}: {count} states"]

/-- What accompanies the making of tables that ended with a conflict. -/
def ofConflict (c : Conflict) : List Batch :=
  ofStates g (Facts.ofGrammar g) g.states ++ [.single .warn fun _ => conflictText g c]

/-- What accompanies the making of tables from declarations. -/
def ofBuild {M : Type → Type} [IndexMap M] [LawfulIndexMap M] (b : Builder M) :
    Except BuildError Tables → List Batch
  | .ok t => ofTables t
  | .error (.table (.conflict c)) =>
    match b.build with
    | .ok g => ofConflict g c
    | .error _ => []
  | .error _ => []

/-- What accompanies a run over an input of at most `fuel` steps. -/
def ofRun (r : Recognizer) (fuel : Nat) (input : Recognizer.Input) : List Batch :=
  match r.codesOf input with
  | .ok codes =>
    [⟨.trace, fun _ => (Event.transcript r.grammar r.automaton fuel (r.start codes)).map
      (Event.text r.grammar)⟩]
  | .error _ => []

end Journal

end SimpleLR
