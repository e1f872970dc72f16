import SimpleLR.Grammar.Basic
import SimpleLR.OrdSet

/-!
# Items

An item is a production with a dot that marks how much of its right side has been read. It carries a
left side of its own, which is what it is shown with.
-/
namespace SimpleLR

/-- A production, by its id, with a dot in its right side. -/
structure Item where
  production : Nat
  dot : Nat
  lhs : Nat
deriving DecidableEq, Inhabited

namespace Item

/-- Items go by production, then by dot, then by left side. -/
instance : Ord Item :=
  ⟨compareLex (compareOn production) (compareLex (compareOn dot) (compareOn lhs))⟩

instance : Std.TransOrd Item :=
  inferInstanceAs (Std.TransCmp
    (compareLex (compareOn production) (compareLex (compareOn dot) (compareOn lhs))))

instance : Std.LawfulEqOrd Item where
  eq_of_compare {a b} h := by
    obtain ⟨hp, h⟩ := compareLex_eq_eq.mp h
    obtain ⟨hd, hl⟩ := compareLex_eq_eq.mp h
    cases a; cases b
    congr
    · exact Std.LawfulEqOrd.eq_of_compare hp
    · exact Std.LawfulEqOrd.eq_of_compare hd
    · exact Std.LawfulEqOrd.eq_of_compare hl

/-- The item of a production with nothing read. -/
def initial (p : Production) : Item := ⟨p.id, 0, p.lhs⟩

/-- The item with the dot one symbol further. -/
def advance (i : Item) : Item := { i with dot := i.dot + 1 }

variable (g : Grammar) (i : Item)

/-- The right side of the item's production, if the grammar has that production. -/
def rhs? : Option (List Nat) := (g.production? i.production).map Production.rhs

/-- The symbol right after the dot. -/
def next? : Option Nat := (i.rhs? g).bind (·[i.dot]?)

/-- Whether the dot stands exactly at the end. -/
def isComplete : Bool := (i.rhs? g).any (i.dot = ·.length)

/-- The names of a right side with the dot among them; a dot past the end is not shown. -/
def dotted (dot : Nat) (names : List String) : List String :=
  names.take dot ++ (if dot ≤ names.length then ["."] else []) ++ names.drop dot

/-- The item in the names of the grammar. -/
def render : String :=
  g.symbolName i.lhs ++ " ->" ++
    String.join ((dotted i.dot (((i.rhs? g).getD []).map g.symbolName)).map (" " ++ ·))

/-- The item in the names of the grammar, if the grammar has its production and its left side. -/
def render? : Option String :=
  if (i.rhs? g).isSome && (g.symbol? i.lhs).isSome then some (i.render g) else none

end Item

/-- Item sets: equal as values when they hold the same items, a smaller one before a larger one. -/
abbrev ItemSet := OrdSet Item

end SimpleLR
