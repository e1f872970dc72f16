import SimpleLR.Grammar.Operation

/-!
# Builders

A builder has collected declarations with different names, whose productions and start symbol are made of
declared symbols. Every operation keeps that, whether it is refused or not, so all declarations that come up
are those of a builder.
-/
namespace SimpleLR

namespace Declarations

variable {M : Type → Type} [IndexMap M]

/-- Names are in use once only, and the symbols of productions and the start symbol are declared. -/
structure Valid (d : Declarations M) : Prop where
  names_nodup : d.names.Nodup
  drafts_declared : ∀ p ∈ d.drafts, d.Declares ⟨.nonterminal, p.lhs⟩ ∧ ∀ h ∈ p.rhs, d.Declares h
  start_declared : ∀ i ∈ d.start, d.Declares ⟨.nonterminal, i⟩

variable {d d' : Declarations M} {kind : SymbolKind} {s : Symbol}

theorem Gains.names_perm (hg : d.Gains kind s d') : d'.names.Perm (s.name :: d.names) := by
  rw [names, names, ← List.map_cons, hg.declared, hg.declared]
  apply List.Perm.map
  refine List.Perm.trans ?_ (List.Perm.swap _ _ _)
  apply List.Perm.cons
  cases kind with
  | nonterminal => simp
  | terminal => simp [← List.append_assoc, List.perm_append_singleton]

theorem Gains.declares [LawfulIndexMap M] (hg : d.Gains kind s d') {h : Handle}
    (hh : d.Declares h) : d'.Declares h := by
  rw [Declares, len_table] at hh ⊢
  rw [hg.declared, List.length_append]
  exact Nat.lt_add_right _ hh

namespace Valid

theorem production (hv : d.Valid) (lhs : Handle) (rhs : List Handle) (actions : List String) :
    (d.production lhs rhs actions).2.Valid := by
  cases h : (d.production lhs rhs actions).1 with
  | error e => rwa [production_refused h]
  | ok id =>
    obtain ⟨hkind, hlhs, hrhs, -, hd⟩ := production_eq_ok h
    rw [hd]
    refine ⟨hv.names_nodup, ?_, hv.start_declared⟩
    intro p hp
    rcases List.mem_append.mp hp with hp | hp
    · exact hv.drafts_declared p hp
    · obtain rfl := List.mem_singleton.mp hp
      obtain ⟨kind, index⟩ := lhs
      obtain rfl : kind = .nonterminal := hkind
      exact ⟨hlhs, hrhs⟩

theorem rule (hv : d.Valid) (lhs : String) (rhs actions : List String) :
    (d.rule lhs rhs actions).2.Valid := by
  cases h : (d.rule lhs rhs actions).1 with
  | error e => rwa [rule_refused h]
  | ok id =>
    obtain ⟨left, right, -, -, hd⟩ := rule_eq_ok h
    rw [hd]
    exact hv.production left right actions

theorem setStart (hv : d.Valid) (h : Handle) : (d.setStart h).2.Valid := by
  cases hs : (d.setStart h).1 with
  | error e => rwa [setStart_refused hs]
  | ok u =>
    obtain ⟨hkind, hh, hd⟩ := setStart_eq_ok hs
    rw [hd]
    refine ⟨hv.names_nodup, hv.drafts_declared, fun i hi => ?_⟩
    obtain ⟨kind, index⟩ := h
    obtain rfl : kind = .nonterminal := hkind
    obtain rfl := Option.some.inj hi
    exact hh

variable [LawfulIndexMap M]

theorem empty (name package : String) : (empty name package : Declarations M).Valid where
  names_nodup := by simp [names, declared, table, Declarations.empty]
  drafts_declared := by simp [Declarations.empty]
  start_declared := by simp [Declarations.empty]

theorem declare (hv : d.Valid) (kind : SymbolKind) (name : String) (attributes : List Attribute) :
    (d.declare kind name attributes).2.Valid := by
  cases h : (d.declare kind name attributes).1 with
  | error e => rwa [declare_refused h]
  | ok handle =>
    obtain ⟨hname, -, hg⟩ := declare_eq_ok h
    obtain ⟨-, -, hdrafts, hstart⟩ := hg.same
    refine ⟨hg.names_perm.nodup_iff.mpr (List.nodup_cons.mpr ⟨hname, hv.names_nodup⟩), ?_, ?_⟩
    · rw [hdrafts]
      intro p hp
      obtain ⟨hlhs, hrhs⟩ := hv.drafts_declared p hp
      exact ⟨hg.declares hlhs, fun h hh => hg.declares (hrhs h hh)⟩
    · rw [hstart]
      exact fun i hi => hg.declares (hv.start_declared i hi)

theorem apply (hv : d.Valid) (op : Operation) : (d.apply op).2.Valid := by
  cases op with
  | nonterminal name attributes => exact hv.declare .nonterminal name attributes
  | terminal name attributes => exact hv.declare .terminal name attributes
  | symbol name => exact hv
  | production lhs rhs actions => exact hv.production lhs rhs actions
  | rule lhs rhs actions => exact hv.rule lhs rhs actions
  | start h => exact hv.setStart h

end Valid

end Declarations

/-- Declarations that have been collected for a grammar, with their symbols in maps of some sort. -/
structure Builder (M : Type → Type := Entries) [IndexMap M] extends Declarations M where
  valid : toDeclarations.Valid

namespace Builder

variable {M : Type → Type} [IndexMap M] [LawfulIndexMap M]

/-- A builder without declarations. -/
def empty (name package : String) : Builder M := ⟨.empty name package, .empty name package⟩

/-- The answer to an operation and the builder after it. -/
def perform (b : Builder M) (op : Operation) : Except GrammarError Reply × Builder M :=
  ((b.apply op).1, ⟨(b.apply op).2, b.valid.apply op⟩)

/-- The answers to a history and the builder after it. -/
def performAll (b : Builder M) : List Operation → List (Except GrammarError Reply) × Builder M
  | [] => ([], b)
  | op :: ops =>
    let (reply, b') := b.perform op
    let (replies, last) := b'.performAll ops
    (reply :: replies, last)

variable {b : Builder M} {op : Operation} {e : GrammarError}

/-- A refused operation leaves the builder as it was. -/
theorem perform_refused (h : (b.perform op).1 = .error e) : (b.perform op).2 = b := by
  obtain ⟨d, valid⟩ := b
  have hd : (d.apply op).2 = d := Declarations.apply_refused h
  simp only [perform, hd]

end Builder

end SimpleLR
