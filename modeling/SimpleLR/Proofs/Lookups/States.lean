import SimpleLR.Proofs.Automaton.Exploration
import SimpleLR.Proofs.Derivation
import SimpleLR.Proofs.Lookups.Loops

/-!
# Looking up states

The search for the states of a grammar meets items of its productions only, so the production of every
item is there. What stands after a dot is a symbol of the grammar; it has a name, and an entry in the
row of each state.
-/
namespace SimpleLR.Checked

variable {g : Grammar}

/-- The initial items that the dot of an item calls for. The productions of a nonterminal are looked up by
their ids. -/
def predictions (g : Grammar) (i : Item) : Option (List Item) := do
  let rhs ← i.rhs? g
  match rhs[i.dot]? with
  | none => return []
  | some c =>
    if g.isTerminal c then return []
    else
      let ps ← g.productionsOf? c
      ps.mapM fun p => (g.production? p.id).map Item.initial

/-- Looks at the dot of the pending item in front. -/
def expand (g : Grammar) (e : Expansion) : Option (Option Expansion) :=
  match e.pending with
  | [] => some none
  | i :: rest => do
    let items ← predictions g i
    return some (items.foldl Expansion.add { e with pending := rest })

def closure (g : Grammar) (items : List Item) : Option ItemSet :=
  let start := Expansion.ofItems items
  (iterate (expand g) (start.items.size + g.productions.length) start).map Expansion.items

/-- The items that have something left to read, each with the symbol after its dot. The production of every
item is looked up. -/
def moves (g : Grammar) (items : ItemSet) : Option (List (Nat × Item)) := do
  let nexts ← items.toList.mapM fun i => (i.rhs? g).map fun rhs => rhs[i.dot]?.map (·, i)
  return nexts.filterMap id

/-- Enters where the moves of an item set on a symbol lead in the row of the set. The symbol is named
in the message on a new state. -/
def enter (g : Grammar) (ms : List (Nat × Item)) (c : Exploration × Array (Option Nat))
    (symbol : Nat) : Option (Exploration × Array (Option Nat)) :=
  match movesOn ms symbol with
  | [] => some c
  | i :: is => do
    let items ← closure g (i :: is)
    let _ ← g.symbolName? symbol
    let row ← set c.2 symbol (some (c.1.number items).2)
    return ((c.1.number items).1, row)

/-- Tries the first item set that has not been tried. -/
def explore (g : Grammar) (e : Exploration) : Option (Option Exploration) :=
  match e.found[e.rows.size]? with
  | none => some none
  | some items => do
    let ms ← moves g items
    let c ← (List.range g.symbolCount).foldlM (enter g ms) (e, Array.replicate g.symbolCount none)
    return some { c.1 with rows := c.1.rows.push c.2 }

def states (g : Grammar) : Option (Array State) := do
  let p ← g.production? 0
  let first ← closure g [Item.initial p]
  let start := (Exploration.number ⟨#[], {}, #[]⟩ first).1
  let e ← iterate (explore g) (Nat.pow 2 g.itemCount) start
  return Array.zipWith State.mk e.found e.rows

theorem rhs?_of_belongsTo {i : Item} (hi : i.BelongsTo g) :
    ∃ rhs, i.rhs? g = some rhs ∧ rhs[i.dot]? = i.next? g := by
  obtain ⟨p, hp, d, -, rfl⟩ := hi
  use p.rhs
  simp [Item.rhs?, Item.next?, Grammar.production?_id hp]

theorem predictions_eq {i : Item} (hi : i.BelongsTo g) :
    predictions g i = some (Expansion.predictions g i) := by
  obtain ⟨rhs, hrhs, hnext⟩ := rhs?_of_belongsTo hi
  rw [Expansion.predictions, ← hnext]
  cases hc : rhs[i.dot]? with
  | none => simp [predictions, hrhs, hc]
  | some c =>
    by_cases hterminal : g.isTerminal c = true
    · -- A terminal has no productions.
      have hno : g.productionsOf c = [] := by
        rw [List.eq_nil_iff_forall_not_mem]
        intro p hp
        obtain ⟨hmem, rfl⟩ := Grammar.mem_productionsOf.mp hp
        rw [Grammar.not_isTerminal_lhs hmem] at hterminal
        contradiction
      simp [predictions, hrhs, hc, hterminal, hno]
    · have hlookup : g.productionsOf? c = some (g.productionsOf c) := by
        rw [Grammar.productionsOf?_eq, Grammar.productionsOf_eq_filter, if_pos]
        simpa [Grammar.isTerminal, Grammar.isNonterminal] using hterminal
      have hinitial : (g.productionsOf c).mapM (fun p => (g.production? p.id).map Item.initial) =
          some ((g.productionsOf c).map Item.initial) := by
        apply mapM_eq
        intro p hp
        rw [Grammar.production?_id (Grammar.mem_productionsOf.mp hp).1, Option.map_some]
      simp [predictions, hrhs, hc, hterminal, hlookup, hinitial]

theorem closure_eq {items : List Item} (hitems : ∀ i ∈ items, i.BelongsTo g) :
    closure g items = some (SimpleLR.closure g items) := by
  have hrun : iterate (expand g) ((Expansion.ofItems items).items.size + g.productions.length)
      (Expansion.ofItems items) = some (SimpleLR.iterate (Expansion.step g)
        ((Expansion.ofItems items).items.size + g.productions.length) (Expansion.ofItems items)) := by
    apply iterate_eq (Expansion.Sound g items) _ _ (Expansion.sound_ofItems g items)
    · rw [Expansion.step, closure_pending]
    · intro e he
      rw [expand, Expansion.step]
      cases hp : e.pending with
      | nil => rfl
      | cons i rest =>
        have hi : i.BelongsTo g :=
          (he.called i (he.pending_mem i (hp ▸ List.mem_cons_self))).belongsTo hitems
        simp [predictions_eq hi]
    · exact fun e t he ht => he.step ht
  simp only [closure, hrun, SimpleLR.closure, Option.map_some]

/-- An item of a production that the grammar does not have stands among the given ones. -/
example : closure .balanced [⟨1, 1, 0⟩, ⟨4, 0, 0⟩] = none := by decide

theorem moves_eq {items : ItemSet} (hitems : ∀ i ∈ items, i.BelongsTo g) :
    moves g items = some (SimpleLR.moves g items) := by
  have hnexts : (items.toList.mapM fun i => (i.rhs? g).map fun rhs => rhs[i.dot]?.map (·, i)) =
      some (items.toList.map fun i => (i.next? g).map (·, i)) := by
    apply mapM_eq
    intro i hi
    obtain ⟨rhs, hrhs, hnext⟩ := rhs?_of_belongsTo (hitems i hi)
    rw [hrhs, Option.map_some, hnext]
  simp [moves, hnexts, SimpleLR.moves, List.filterMap_map]

/-- Entering symbol after symbol in a row comes to trying them all. -/
theorem foldlM_enter_eq {ms : List (Nat × Item)}
    (hms : ∀ symbol, ∀ i ∈ movesOn ms symbol, i.BelongsTo g) (count : Nat)
    (before : List (Option Nat)) (hcount : before.length + count ≤ g.symbolCount) (e : Exploration) :
    (List.range' before.length count).foldlM (enter g ms)
        (e, (before ++ List.replicate count none).toArray) =
      some ((Exploration.tryAll g ms (List.range' before.length count) e).1,
        (before ++ (Exploration.tryAll g ms (List.range' before.length count) e).2).toArray) := by
  induction count generalizing before e with
  | zero => simp [Exploration.tryAll]
  | succ count ih =>
    have hlt : before.length < g.symbolCount := by omega
    have hrest : ∀ entry, (before ++ [entry]).length + count ≤ g.symbolCount := by
      intro entry
      simp
      omega
    rw [List.range'_succ, List.foldlM_cons]
    cases hmoves : movesOn ms before.length with
    | nil =>
      have hstep : enter g ms (e, (before ++ List.replicate (count + 1) none).toArray)
          before.length = some (e, ((before ++ [none]) ++ List.replicate count none).toArray) := by
        rw [enter, hmoves, List.replicate_succ, List.append_cons]
      rw [hstep]
      simpa [Exploration.tryAll, hmoves] using ih (before ++ [none]) (hrest none) e
    | cons i is =>
      have hclosure := closure_eq (hmoves ▸ hms before.length)
      have hstep : enter g ms (e, (before ++ List.replicate (count + 1) none).toArray)
          before.length = some ((e.number (SimpleLR.closure g (i :: is))).1,
            ((before ++ [some (e.number (SimpleLR.closure g (i :: is))).2]) ++
              List.replicate count none).toArray) := by
        simp [enter, hmoves, hclosure, Grammar.symbolName?_eq_some hlt, Checked.set,
          List.replicate_succ]
      rw [hstep]
      simpa [Exploration.tryAll, hmoves] using ih (before ++ [some _]) (hrest _) _

theorem explore_eq {e : Exploration} (he : e.Sound g) : explore g e = some (e.step g) := by
  rw [explore, Exploration.step]
  cases hfound : e.found[e.rows.size]? with
  | none => rfl
  | some items =>
    have hitems := he.belongsTo _ _ hfound
    have hms : ∀ symbol, ∀ i ∈ movesOn (SimpleLR.moves g items) symbol, i.BelongsTo g := fun _ =>
      movesOn_belongsTo hitems
    have hrow := foldlM_enter_eq hms g.symbolCount [] (by simp) e
    simp only [List.length_nil, List.nil_append, List.toArray_replicate, ← List.range_eq_range'] at hrow
    simp [moves_eq hitems, hrow]

/-- Every lookup that is made on the way to the states finds what it looks for. -/
theorem states_eq (g : Grammar) : states g = some g.states := by
  have hzero : g.production? 0 = some g.startProduction := rfl
  have hfirst : closure g [Item.initial g.startProduction] =
      some (SimpleLR.closure g [Item.initial g.startProduction]) := by
    apply closure_eq
    intro i hi
    rw [List.mem_singleton.mp hi]
    exact Production.itemAt_belongsTo List.mem_cons_self (Nat.zero_le _)
  have hrun : iterate (explore g) (Nat.pow 2 g.itemCount) (Exploration.start g) =
      some (Exploration.complete g) := by
    apply iterate_eq (Exploration.Sound g) _ _ (Exploration.sound_start g) (Exploration.step_complete g)
    · exact fun e he => explore_eq he
    · exact fun e t he ht => he.step ht
  have hstart : (Exploration.number ⟨#[], {}, #[]⟩
      (SimpleLR.closure g [Item.initial g.startProduction])).1 = Exploration.start g := rfl
  simp only [states, hzero, hfirst, hstart, hrun, Option.bind_eq_bind, Option.bind_some]
  rfl

end SimpleLR.Checked
