import SimpleLR.Journal
import SimpleLR.Proofs.Automaton.FirstConflict
import SimpleLR.Proofs.Lookups.Facts
import SimpleLR.Proofs.Lookups.States

/-!
# Looking up tables

The way from a grammar to its tables makes no lookup that could fail: not for the facts, not for the
states and not for the cells, and neither for the names in the message on a conflict. So it ends with the
tables or with a conflict.
-/
namespace SimpleLR.Checked

/-- An item in the names of the grammar. -/
def itemText (g : Grammar) (i : Item) : Option String := do
  let rhs ← i.rhs? g
  let lhs ← g.symbolName? i.lhs
  let names ← rhs.mapM g.symbolName?
  return lhs ++ " ->" ++ String.join ((Item.dotted i.dot names).map (" " ++ ·))

/-- The production with an id, with everything read, in the names of the grammar. -/
def completeText (g : Grammar) (id : Nat) : Option String := do
  let p ← g.production? id
  itemText g ⟨id, p.rhs.length, p.lhs⟩

/-- The message on a conflict. -/
def conflictText (g : Grammar) (c : Conflict) : Option String :=
  match c with
  | .shiftReduce _ production symbol _ => do
    let item ← completeText g production
    let name ← g.symbolName? symbol
    return s!"{c.message}: [{item}] on {name}"
  | .reduceReduce _ existing incoming _ => do
    let first ← completeText g existing
    let second ← completeText g incoming
    return s!"{c.message}: [{first}] vs. [{second}]"

/-- The tables of a grammar, or its conflict with the message on it. What a table refers to without having
it is a lookup that failed. -/
def tables (g : Grammar) : Option (Except (Conflict × String) Tables) := do
  let f ← facts g (g.productions.map Production.id)
  let states ← states g
  match ReduceTable.build g f states with
  | .error (.dangling _) => none
  | .error (.conflict c) =>
    let text ← conflictText g c
    return .error (c, text)
  | .ok reduces =>
    let p ← g.production? 0
    let accept := (Item.initial p).advance
    return .ok ⟨g, f, states, reduces, states.findIdx? fun s => s.items.contains accept⟩

variable {g : Grammar}

theorem itemText_eq {i : Item} (hi : i.BelongsTo g) : itemText g i = some (i.render g) := by
  obtain ⟨p, hp, d, -, rfl⟩ := hi
  have hnames : p.rhs.mapM g.symbolName? = some (p.rhs.map g.symbolName) :=
    mapM_eq fun c hc => Grammar.symbolName?_eq_some (Grammar.rhs_lt hp hc).1
  have hlhs := Grammar.symbolName?_eq_some (Grammar.lhs_lt_symbolCount hp)
  have hrhs : (p.itemAt d).rhs? g = some p.rhs := by
    simp [Item.rhs?, Grammar.production?_id hp]
  simp [itemText, Item.render, hrhs, hlhs, hnames]

theorem completeText_eq {p : Production} (hp : p ∈ g.productions) :
    completeText g p.id = some ((Journal.completeItem g p.id).render g) := by
  have hitem := Production.itemAt_belongsTo hp (Nat.le_refl p.rhs.length)
  rw [completeText, Journal.completeItem, Grammar.production?_id hp]
  exact itemText_eq hitem

section

variable {f : Facts} {s : State} {n : Nat} (hs : g.states[n]? = some s)

include hs

theorem completeText_of_candidate {la : Lookahead} {i : Item}
    (hi : ReduceTable.Candidate g f s la i) :
    completeText g i.production = some ((Journal.completeItem g i.production).render g) := by
  obtain ⟨p, hp, d, -, rfl⟩ := Grammar.states_belongsTo hs hi.1
  exact completeText_eq hp

theorem symbolName?_of_transition? {c t : Nat} (ht : s.transition? c = some t) :
    g.symbolName? c = some (g.symbolName c) := by
  have hlt := (Array.getElem?_eq_some_iff.mp (State.transition?_eq_some.mp ht)).1
  exact Grammar.symbolName?_eq_some (Grammar.states_targets_size hs ▸ hlt)

end

/-- The message on a conflict that is reported of a candidate can be made. -/
theorem conflictText_eq {f : Facts} {m : ReduceTable.Claim} {c : Conflict}
    (hm : ReduceTable.Bad g f m) (hc : ReduceTable.Reported g f m c) :
    conflictText g c = some (Journal.conflictText g c) := by
  obtain ⟨s, hs, hcandidate, -⟩ := hm
  have hitem := completeText_of_candidate hs hcandidate
  cases hc with
  | reduceReduce hs' hj _ =>
    obtain rfl := Option.mem_unique hs hs'
    simp [conflictText, Journal.conflictText, hitem, completeText_of_candidate hs hj.1]
  | shiftReduce hs' _ _ ht =>
    obtain rfl := Option.mem_unique hs hs'
    simp [conflictText, Journal.conflictText, hitem, symbolName?_of_transition? hs ht]

/-- All lookups on the way from a grammar to its tables find what they look for: the facts, the states and
the tables come about as they do without checks, or else there is a conflict, and the message on it can
be made. -/
theorem tables_eq_build (g : Grammar) :
    facts g (g.productions.map Production.id) = some (Facts.ofGrammar g) ∧
      states g = some g.states ∧
      ((∃ t, Tables.build g = .ok t ∧ tables g = some (.ok t)) ∨
        ∃ c, Tables.build g = .error (.conflict c) ∧
          tables g = some (.error (c, Journal.conflictText g c))) := by
  have hfacts : facts g (g.productions.map Production.id) = some (Facts.ofGrammar g) :=
    facts_eq fun _ hp => hp
  have hstates := states_eq g
  refine ⟨hfacts, hstates, ?_⟩
  have hf := Facts.covers_ofGrammar g
  cases hbuild : ReduceTable.build g (Facts.ofGrammar g) g.states with
  | ok reduces =>
    left
    have hzero : g.production? 0 = some g.startProduction := rfl
    use ⟨g, Facts.ofGrammar g, g.states, reduces,
      g.states.findIdx? fun s => s.items.contains g.acceptItem⟩
    constructor
    · simp [Tables.build, Automaton.build, hbuild]
    · simp [tables, hfacts, hstates, hbuild, hzero]
      rfl
  | error e =>
    right
    obtain ⟨n, s, hs, hrow, -⟩ := ReduceTable.build_first_row hbuild
    obtain ⟨i, la, c, rfl, hbad, hreported, -⟩ := ReduceTable.fillRow_first_conflict hf hs hrow
    use c
    constructor
    · simp [Tables.build, Automaton.build, hbuild]
    · simp [tables, hfacts, hstates, hbuild, conflictText_eq hbad hreported]

end SimpleLR.Checked
