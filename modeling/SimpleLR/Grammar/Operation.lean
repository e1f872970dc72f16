import SimpleLR.Grammar.Declarations

/-!
# Operations on declarations

What can be asked is one of six operations. Each is answered, with an error if it is refused, and a refused
operation leaves the declarations as they were, wherever in its course it was refused.
-/
namespace SimpleLR

/-- What can be asked of a builder. -/
inductive Operation
  | nonterminal (name : String) (attributes : List Attribute)
  | terminal (name : String) (attributes : List Attribute)
  | symbol (name : String)
  | production (lhs : Handle) (rhs : List Handle) (actions : List String)
  | rule (lhs : String) (rhs actions : List String)
  | start (h : Handle)
deriving DecidableEq

/-- The answer to an operation that succeeds. -/
inductive Reply
  | symbol (h : Handle)
  | production (id : Nat)
  | done
deriving DecidableEq

namespace Declarations

variable {M : Type → Type} [IndexMap M]

/-- Carries out an operation. -/
def apply (d : Declarations M) : Operation → Except GrammarError Reply × Declarations M
  | .nonterminal name attributes => (d.declare .nonterminal name attributes).map (·.map .symbol) id
  | .terminal name attributes => (d.declare .terminal name attributes).map (·.map .symbol) id
  | .symbol name => ((d.symbol name).map .symbol, d)
  | .production lhs rhs actions => (d.production lhs rhs actions).map (·.map .production) id
  | .rule lhs rhs actions => (d.rule lhs rhs actions).map (·.map .production) id
  | .start h => (d.setStart h).map (·.map fun _ => .done) id

variable {d : Declarations M} {op : Operation} {e : GrammarError}

theorem apply_refused (h : (d.apply op).1 = .error e) : (d.apply op).2 = d := by
  have herror : ∀ {α : Type} {f : α → Reply} {x : Except GrammarError α}, x.map f = .error e →
      x = .error e := by
    intro α f x hx
    cases x with
    | error e' => exact congrArg Except.error (Except.error.inj hx)
    | ok a => contradiction
  cases op with
  | nonterminal name attributes => exact declare_refused (herror h)
  | terminal name attributes => exact declare_refused (herror h)
  | symbol name => rfl
  | production lhs rhs actions => exact production_refused (herror h)
  | rule lhs rhs actions => exact rule_refused (herror h)
  | start h' => exact setStart_refused (herror h)

end Declarations

end SimpleLR
