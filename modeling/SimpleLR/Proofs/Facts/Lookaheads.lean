import SimpleLR.Proofs.Automaton.ViablePrefix
import SimpleLR.Proofs.Facts.Exact

/-!
# Lookaheads of parses

Closed facts know the lookaheads of every parse. A parse of nothing takes nullable symbols, a parse of
anything else begins with a terminal of a FIRST set, and what is left of an input when a nonterminal in
a sentential form has been parsed shows a lookahead of its FOLLOW set.
-/
namespace SimpleLR

/-- What the rest of an input shows next. -/
def Lookahead.ofInput : List Nat → Lookahead
  | [] => .endOfInput
  | c :: _ => .terminal c

theorem Lookahead.ofInput_append {y z : List Nat} (h : ofInput y = ofInput z) (w : List Nat) :
    ofInput (w ++ y) = ofInput (w ++ z) := by
  cases w with
  | nil => exact h
  | cons c w => rfl

namespace Facts.Closed

variable {g : Grammar} {f : Facts} (hf : f.Closed g g.productions)

include hf

theorem isNullable_of_yields {u r w : List Nat} (h : g.Yields u r w) (hw : w = []) :
    u.all f.isNullable = true := by
  subst hw
  rw [List.all_eq_true]
  exact nullable_of_derives hf.models h.rightmostBy.derives (by simp)

theorem mem_ofString_of_yields {u r w w' : List Nat} {c : Nat} (h : g.Yields u r w)
    (hw : w = c :: w') : c ∈ First.ofString g f.nullable f.firsts u := by
  subst hw
  have hc : g.isTerminal c = true :=
    Grammar.isTerminal_of_mem_terminals (h.isTerminalString c List.mem_cons_self)
  rw [First.mem_ofString]
  exact begins_of_derives hf.models h.rightmostBy.derives (.terminal hc)

/-- When a nonterminal of a right side has been parsed, the parse of what stands behind it is what a
FOLLOW set has to allow for. -/
theorem ofInput_mem_follow {p : Production} (hp : p ∈ g.productions) {d A : Nat}
    (hA : g.isNonterminal A = true) (hd : p.rhs[d]? = some A) {r w z : List Nat}
    (hw : g.Yields (p.rhs.drop (d + 1)) r w) (hz : Lookahead.ofInput z ∈ f.follow p.lhs) :
    Lookahead.ofInput (w ++ z) ∈ f.follow A := by
  have hrhs : p.rhs = p.rhs.take d ++ A :: p.rhs.drop (d + 1) := by
    rw [← Grammar.Open.drop_eq hd, List.take_append_drop]
  apply hf.follow p hp _ A _ hrhs hA
  rw [Follow.after, List.mem_append]
  cases w with
  | nil =>
    right
    have hn : (p.rhs.drop (d + 1)).all (Nullable.holds f.nullable) = true :=
      hf.isNullable_of_yields hw rfl
    rw [if_pos hn]
    exact hz
  | cons c w =>
    left
    exact List.mem_map.mpr ⟨c, hf.mem_ofString_of_yields hw rfl, rfl⟩

/-- A parse of what stands behind an open production shows a lookahead for its left side. -/
theorem ofInput_mem_follow_of_open {γ ω : List Nat} {p : Production} {d : Nat}
    (h : g.Open γ p d ω) {r y : List Nat} (hy : g.Yields ω r y) :
    Lookahead.ofInput y ∈ f.follow p.lhs := by
  induction h generalizing r y with
  | start =>
    cases hy
    exact hf.last
  | call h hq hd ih =>
    obtain ⟨_, _, _, _, -, rfl, hw, hz⟩ := hy.split
    exact hf.ofInput_mem_follow h.mem (Grammar.isNonterminal_lhs hq) hd hw (ih hz)
  | read _ _ ih => exact ih hy

end Facts.Closed

end SimpleLR
