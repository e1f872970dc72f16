import SimpleLR.Item.Basic
import SimpleLR.Iterate

/-!
# Closure and goto

A dot before a nonterminal means that one of its productions may begin there. The closure of some
items adds the initial items of all these productions, and of the ones that may begin those in turn.
-/
namespace SimpleLR

/-- A closure in the making: the items so far, and those whose dot has yet to be looked at. -/
structure Expansion where
  items : ItemSet
  pending : List Item

namespace Expansion

/-- All items are pending, the greatest in front. -/
def ofItems (items : List Item) : Expansion :=
  let set := OrdSet.ofList items
  ⟨set, set.toList.reverse⟩

/-- Takes in an item, which is pending if it is new. -/
def add (e : Expansion) (i : Item) : Expansion :=
  if e.items.contains i then e else ⟨e.items.insert i, i :: e.pending⟩

/-- The initial items that the dot of an item calls for. -/
def predictions (g : Grammar) (i : Item) : List Item :=
  match i.next? g with
  | none => []
  | some c => (g.productionsOf c).map Item.initial

/-- Looks at the dot of the pending item in front. -/
def step (g : Grammar) (e : Expansion) : Option Expansion :=
  match e.pending with
  | [] => none
  | i :: rest => some ((predictions g i).foldl add { e with pending := rest })

end Expansion

/-- The least set that holds the items and what their dots call for. Each given item and each
initial item is pending once at most, which bounds the steps. -/
def closure (g : Grammar) (items : List Item) : ItemSet :=
  let start := Expansion.ofItems items
  (iterate (Expansion.step g) (start.items.size + g.productions.length) start).items

/-- The items that have something left to read, each with the symbol after its dot. -/
def moves (g : Grammar) (items : ItemSet) : List (Nat × Item) :=
  items.toList.filterMap fun i => (i.next? g).map (·, i)

/-- The items that can read a symbol, as they are after reading it. -/
def movesOn (moves : List (Nat × Item)) (symbol : Nat) : List Item :=
  (moves.filter fun m => m.1 = symbol).map fun m => m.2.advance

/-- What the items become when the symbol is read; empty if no dot stands before it. -/
def goto (g : Grammar) (items : ItemSet) (symbol : Nat) : ItemSet :=
  closure g (movesOn (moves g items) symbol)

/-- Whether the grammar has the production of every item. -/
def Grammar.hasAll (g : Grammar) (items : List Item) : Bool :=
  items.all fun i => (g.production? i.production).isSome

/-- The closure of items that may come from anywhere. -/
def closure? (g : Grammar) (items : List Item) : Option ItemSet :=
  if g.hasAll items then some (closure g items) else none

/-- The goto of items that may come from anywhere. -/
def goto? (g : Grammar) (items : ItemSet) (symbol : Nat) : Option ItemSet :=
  if g.hasAll items.toList then some (goto g items symbol) else none

end SimpleLR
