import SimpleLR.Item.Closure
import Mathlib.Tactic.Common

/-!
# Items of productions

An item that belongs to a grammar is a production of it with a dot no further than its end, and
carries the left side of that production.
-/
namespace SimpleLR

/-- The item of a production with so much of its right side read. -/
def Production.itemAt (p : Production) (dot : Nat) : Item := ⟨p.id, dot, p.lhs⟩

/-- The item is one of a production of the grammar. -/
def Item.BelongsTo (g : Grammar) (i : Item) : Prop :=
  ∃ p ∈ g.productions, ∃ d ≤ p.rhs.length, i = p.itemAt d

theorem Item.initial_eq (p : Production) : Item.initial p = p.itemAt 0 := rfl

namespace Production

variable {g : Grammar} {p q : Production}

theorem eq_of_id_eq (hp : p ∈ g.productions) (hq : q ∈ g.productions) (h : p.id = q.id) : p = q := by
  have := Grammar.production?_id hp
  rw [h, Grammar.production?_id hq] at this
  exact (Option.some.inj this).symm

theorem itemAt_inj (hp : p ∈ g.productions) (hq : q ∈ g.productions) {d e : Nat} :
    p.itemAt d = q.itemAt e ↔ p = q ∧ d = e := by
  constructor
  · intro h
    exact ⟨eq_of_id_eq hp hq (congrArg Item.production h), congrArg Item.dot h⟩
  · rintro ⟨rfl, rfl⟩
    rfl

@[simp] theorem itemAt_advance (p : Production) (d : Nat) :
    (p.itemAt d).advance = p.itemAt (d + 1) := rfl

@[simp] theorem itemAt_production (p : Production) (d : Nat) : (p.itemAt d).production = p.id := rfl

@[simp] theorem itemAt_lhs (p : Production) (d : Nat) : (p.itemAt d).lhs = p.lhs := rfl

@[simp] theorem itemAt_dot (p : Production) (d : Nat) : (p.itemAt d).dot = d := rfl

theorem itemAt_next? (hp : p ∈ g.productions) (d : Nat) : (p.itemAt d).next? g = p.rhs[d]? := by
  simp [Item.next?, Item.rhs?, Grammar.production?_id hp]

theorem itemAt_isComplete (hp : p ∈ g.productions) (d : Nat) :
    (p.itemAt d).isComplete g = true ↔ d = p.rhs.length := by
  simp only [Item.isComplete, Item.rhs?, itemAt_production, Grammar.production?_id hp,
    Option.map_some, Option.any_some]
  exact decide_eq_true_iff

theorem itemAt_belongsTo (hp : p ∈ g.productions) {d : Nat} (hd : d ≤ p.rhs.length) :
    (p.itemAt d).BelongsTo g :=
  ⟨p, hp, d, hd, rfl⟩

end Production

variable {g : Grammar}

/-- All items of a grammar. -/
def Grammar.allItems (g : Grammar) : List Item :=
  g.productions.flatMap fun p => (List.range (p.rhs.length + 1)).map p.itemAt

theorem Grammar.mem_allItems {i : Item} : i ∈ g.allItems ↔ i.BelongsTo g := by
  simp only [allItems, List.mem_flatMap, List.mem_map, List.mem_range, Item.BelongsTo,
    Nat.lt_succ_iff, eq_comm]

@[simp] theorem mem_predictions {i j : Item} :
    j ∈ Expansion.predictions g i ↔
      ∃ p ∈ g.productions, i.next? g = some p.lhs ∧ j = p.itemAt 0 := by
  rw [Expansion.predictions]
  split
  · rename_i h
    simp [h]
  · rename_i c h
    simp only [h, List.mem_map, Grammar.mem_productionsOf, Item.initial_eq, Option.some.injEq]
    constructor
    · rintro ⟨p, ⟨hp, rfl⟩, rfl⟩
      exact ⟨p, hp, rfl, rfl⟩
    · rintro ⟨p, hp, rfl, rfl⟩
      exact ⟨p, ⟨hp, rfl⟩, rfl⟩

@[simp] theorem mem_movesOn {items : ItemSet} {symbol : Nat} {j : Item} :
    j ∈ movesOn (moves g items) symbol ↔ ∃ i ∈ items, i.next? g = some symbol ∧ j = i.advance := by
  simp only [movesOn, moves, List.mem_map, List.mem_filter, List.mem_filterMap, decide_eq_true_eq]
  constructor
  · rintro ⟨m, ⟨⟨i, hi, hm⟩, rfl⟩, rfl⟩
    obtain ⟨c, hc, rfl⟩ := Option.map_eq_some_iff.mp hm
    exact ⟨i, hi, hc, rfl⟩
  · rintro ⟨i, hi, hc, rfl⟩
    exact ⟨(symbol, i), ⟨⟨i, hi, by simp [hc]⟩, rfl⟩, rfl⟩

end SimpleLR
