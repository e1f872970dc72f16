/-!
# Lookaheads

What a parser sees next is a terminal of its grammar or the end of the input.
-/
namespace SimpleLR

/-- The next thing to read: a terminal, given by its symbol code, or the end of the input. -/
inductive Lookahead
  | terminal (code : Nat)
  | endOfInput
deriving DecidableEq, Inhabited

namespace Lookahead

/-- Terminals go by their codes, and the end of the input comes last. -/
protected def compare : Lookahead → Lookahead → Ordering
  | terminal a, terminal b => Ord.compare a b
  | terminal _, endOfInput => .lt
  | endOfInput, terminal _ => .gt
  | endOfInput, endOfInput => .eq

instance : Ord Lookahead := ⟨Lookahead.compare⟩

theorem compare_terminal (a b : Nat) : compare (terminal a) (terminal b) = compare a b := rfl

instance : Std.TransOrd Lookahead where
  eq_swap {a b} := by
    cases a <;> cases b
    · exact Std.OrientedOrd.eq_swap (α := Nat)
    all_goals rfl
  isLE_trans {a b c} hab hbc := by
    cases c with
    | endOfInput => cases a <;> rfl
    | terminal c =>
      cases b with
      | endOfInput => cases hbc
      | terminal b =>
        cases a with
        | endOfInput => cases hab
        | terminal a => exact Std.TransOrd.isLE_trans (α := Nat) hab hbc

instance : Std.LawfulEqOrd Lookahead where
  eq_of_compare {a b} h := by
    cases a with
    | terminal a =>
      cases b with
      | terminal b => exact congrArg terminal (Std.LawfulEqOrd.eq_of_compare (α := Nat) h)
      | endOfInput => cases h
    | endOfInput =>
      cases b with
      | terminal b => cases h
      | endOfInput => rfl

/-- The column of a table row that has one column per symbol and a last one for the end. -/
def column (symbolCount : Nat) : Lookahead → Nat
  | terminal code => code
  | endOfInput => symbolCount

/-- How messages show a lookahead when no grammar is at hand to name it. -/
def describe : Lookahead → String
  | terminal code => s!"symbol {code}"
  | endOfInput => "$"

end Lookahead

end SimpleLR
