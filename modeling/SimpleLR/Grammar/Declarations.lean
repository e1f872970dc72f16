import SimpleLR.Grammar.Basic
import SimpleLR.Grammar.Error
import SimpleLR.Grammar.Symtab

/-!
# Declarations

The declarations of a grammar are collected in any order. Symbols are named by handles that count the symbols
of their kind, because the codes of a grammar are settled only when it is built. Each operation answers, with
an error if it is refused, and leaves the declarations in a new state, also when it is refused. That the state
is then the old one is what the lemmas about refusals say.
-/
namespace SimpleLR

/-- A declared symbol: the `index`-th one of its kind. -/
structure Handle where
  kind : SymbolKind
  index : Nat
deriving DecidableEq

/-- The code of a symbol in a grammar with the given number of declared nonterminals. -/
def Handle.code (declaredNonterminals : Nat) (h : Handle) : Nat :=
  match h.kind with
  | .nonterminal => h.index
  | .terminal => declaredNonterminals + 1 + h.index

/-- A production in the making: its left side is the `lhs`-th nonterminal. -/
structure Draft where
  lhs : Nat
  rhs : List Handle
  actions : List String
deriving DecidableEq

/-- The declarations of a grammar so far. -/
structure Declarations (M : Type → Type) where
  name : String
  package : String
  nonterms : Symtab M (List Attribute)
  terms : Symtab M (List Attribute)
  drafts : List Draft
  start : Option Nat

namespace Declarations

variable {M : Type → Type}

/-- The symbols of a kind. -/
def table (d : Declarations M) : SymbolKind → Symtab M (List Attribute)
  | .nonterminal => d.nonterms
  | .terminal => d.terms

/-- Puts other symbols of a kind in the place of the ones so far. -/
def withTable (d : Declarations M) (kind : SymbolKind) (t : Symtab M (List Attribute)) :
    Declarations M :=
  match kind with
  | .nonterminal => { d with nonterms := t }
  | .terminal => { d with terms := t }

theorem withTable_table (d : Declarations M) (kind : SymbolKind) : d.withTable kind (d.table kind) = d := by
  cases kind <;> rfl

variable [IndexMap M]

def empty (name package : String) : Declarations M := ⟨name, package, .empty, .empty, [], none⟩

variable (d : Declarations M)

/-- The declared symbols of a kind, in the order of their declarations. -/
def declared (kind : SymbolKind) : List Symbol := (d.table kind).iter.map fun e => ⟨e.1, e.2⟩

/-- The names in use, the reserved one first. -/
def names : List String :=
  (Symbol.augmentedStart :: (d.declared .nonterminal ++ d.declared .terminal)).map Symbol.name

/-- Whether the handle stands for a declared symbol. -/
def Declares (h : Handle) : Prop := h.index < (d.table h.kind).len

instance (h : Handle) : Decidable (d.Declares h) := inferInstanceAs (Decidable (_ < _))

/-- Refuses the reserved name and a name of either kind that has been declared. -/
def checkName (name : String) : Except GrammarError Unit :=
  if name = Symbol.augmentedStart.name then .error (.reservedName name)
  else if (d.nonterms.idx name).isSome || (d.terms.idx name).isSome then
    .error (.duplicateSymbol name)
  else .ok ()

/-- Refuses a handle that stands for no declared symbol. -/
def checkHandle (h : Handle) : Except GrammarError Unit :=
  let declared := (d.table h.kind).len
  if declared ≤ h.index then .error (.invalidHandle h.kind h.index declared) else .ok ()

def nameOf (h : Handle) : String := ((d.table h.kind).sym h.index).getD ""

/-- Declares a symbol of a kind. -/
def declare (kind : SymbolKind) (name : String) (attributes : List Attribute) :
    Except GrammarError Handle × Declarations M :=
  match d.checkName name with
  | .error e => (.error e, d)
  | .ok () =>
    match (d.table kind).insertNew name attributes with
    | (none, t) => (.error (.duplicateSymbol name), d.withTable kind t)
    | (some index, t) => (.ok ⟨kind, index⟩, d.withTable kind t)

/-- The handle of a declared name. -/
def symbol (name : String) : Except GrammarError Handle :=
  match d.nonterms.idx name with
  | some i => .ok ⟨.nonterminal, i⟩
  | none =>
    match d.terms.idx name with
    | some i => .ok ⟨.terminal, i⟩
    | none => .error (.unknownSymbol name)

/-- Adds a production; the answer is its id. Ids go up from 1 in the order of the additions. -/
def production (lhs : Handle) (rhs : List Handle) (actions : List String) :
    Except GrammarError Nat × Declarations M :=
  match d.checkHandle lhs with
  | .error e => (.error e, d)
  | .ok () =>
    match lhs.kind with
    | .terminal => (.error (.leftSideNotNonterminal (d.nameOf lhs)), d)
    | .nonterminal =>
      match rhs.forM d.checkHandle with
      | .error e => (.error e, d)
      | .ok () =>
        let drafts := d.drafts ++ [⟨lhs.index, rhs, actions⟩]
        (.ok drafts.length, { d with drafts := drafts })

/-- Adds a production that is given by names. -/
def rule (lhs : String) (rhs actions : List String) : Except GrammarError Nat × Declarations M :=
  match d.symbol lhs with
  | .error e => (.error e, d)
  | .ok left =>
    match rhs.mapM d.symbol with
    | .error e => (.error e, d)
    | .ok right => d.production left right actions

/-- Chooses the start symbol; a later choice replaces an earlier one. -/
def setStart (h : Handle) : Except GrammarError Unit × Declarations M :=
  match d.checkHandle h with
  | .error e => (.error e, d)
  | .ok () =>
    match h.kind with
    | .nonterminal => (.ok (), { d with start := some h.index })
    | .terminal => (.error (.leftSideNotNonterminal (d.nameOf h)), d)

variable {d}

@[simp] theorem declared_update (drafts : List Draft) (start : Option Nat) (kind : SymbolKind) :
    ({ d with drafts := drafts, start := start } : Declarations M).declared kind = d.declared kind := by
  cases kind <;> rfl

section Refused

variable {e : GrammarError}

/-- A declaration that is refused leaves everything as it was. -/
theorem declare_refused {kind : SymbolKind} {name : String} {attributes : List Attribute}
    (h : (d.declare kind name attributes).1 = .error e) : (d.declare kind name attributes).2 = d := by
  unfold declare at h ⊢
  split
  · rfl
  · -- Here the table has been asked to take in the name, which it has not done.
    split
    · rename_i t hinsert
      have htable : ((d.table kind).insertNew name attributes).2 = d.table kind :=
        Symtab.insertNew_refused (by rw [hinsert])
      rw [hinsert] at htable
      rw [show t = d.table kind from htable, withTable_table]
    · rename_i hinsert
      simp [*] at h

theorem production_refused {lhs : Handle} {rhs : List Handle} {actions : List String}
    (h : (d.production lhs rhs actions).1 = .error e) : (d.production lhs rhs actions).2 = d := by
  unfold production at h ⊢
  split
  · rfl
  · split
    · rfl
    · split
      · rfl
      · simp [*] at h

/-- A rule does so too, whichever of its names is not found. -/
theorem rule_refused {lhs : String} {rhs actions : List String}
    (h : (d.rule lhs rhs actions).1 = .error e) : (d.rule lhs rhs actions).2 = d := by
  unfold rule at h ⊢
  split
  · rfl
  · split
    · rfl
    · exact production_refused (by simpa [*] using h)

theorem setStart_refused {h : Handle} (hs : (d.setStart h).1 = .error e) : (d.setStart h).2 = d := by
  unfold setStart at hs ⊢
  split
  · rfl
  · split
    · simp [*] at hs
    · rfl

end Refused

theorem checkHandle_eq_ok {h : Handle} : d.checkHandle h = .ok () ↔ d.Declares h := by
  simp [checkHandle, Declares]

theorem checkHandles_eq_ok {l : List Handle} :
    l.forM d.checkHandle = .ok () ↔ ∀ h ∈ l, d.Declares h := by
  induction l with
  | nil => simp [pure, Except.pure]
  | cons h l ih =>
    rw [List.forall_mem_cons, ← ih, ← checkHandle_eq_ok, List.forM]
    cases hc : d.checkHandle h <;> simp [bind, Except.bind]

theorem production_eq_ok {lhs : Handle} {rhs : List Handle} {actions : List String} {id : Nat}
    (h : (d.production lhs rhs actions).1 = .ok id) :
    lhs.kind = .nonterminal ∧ d.Declares lhs ∧ (∀ s ∈ rhs, d.Declares s) ∧ id = d.drafts.length + 1 ∧
      (d.production lhs rhs actions).2 = { d with drafts := d.drafts ++ [⟨lhs.index, rhs, actions⟩] } := by
  unfold production at h ⊢
  split at h
  · contradiction
  · rename_i hlhs
    split at h
    · contradiction
    · rename_i hkind
      split at h
      · contradiction
      · rename_i hrhs
        obtain rfl := Except.ok.inj h
        exact ⟨hkind, checkHandle_eq_ok.mp hlhs, checkHandles_eq_ok.mp hrhs, by simp, rfl⟩

/-- A production that is given by names is the one of their handles. -/
theorem rule_eq_ok {lhs : String} {rhs actions : List String} {id : Nat}
    (h : (d.rule lhs rhs actions).1 = .ok id) : ∃ left right, d.symbol lhs = .ok left ∧
      rhs.mapM d.symbol = .ok right ∧ d.rule lhs rhs actions = d.production left right actions := by
  unfold rule at h ⊢
  split at h
  · contradiction
  · rename_i left hleft
    split at h
    · contradiction
    · rename_i right hright
      exact ⟨left, right, hleft, hright, rfl⟩

theorem setStart_eq_ok {h : Handle} {u : Unit} (hs : (d.setStart h).1 = .ok u) :
    h.kind = .nonterminal ∧ d.Declares h ∧ (d.setStart h).2 = { d with start := some h.index } := by
  unfold setStart at hs ⊢
  split at hs
  · contradiction
  · rename_i hh
    split at hs
    · rename_i hkind
      exact ⟨hkind, checkHandle_eq_ok.mp hh, rfl⟩
    · contradiction

/-- One symbol of a kind more is declared in the second of two states, and nothing else is different. -/
structure Gains (d : Declarations M) (kind : SymbolKind) (s : Symbol) (d' : Declarations M) : Prop where
  declared : ∀ k, d'.declared k = d.declared k ++ if kind = k then [s] else []
  same : d'.name = d.name ∧ d'.package = d.package ∧ d'.drafts = d.drafts ∧ d'.start = d.start

variable [LawfulIndexMap M]

theorem len_table (kind : SymbolKind) : (d.table kind).len = (d.declared kind).length := by
  simp [declared, Symtab.len_eq]

theorem checkName_eq_ok {name : String} : d.checkName name = .ok () ↔ name ∉ d.names := by
  have hnonterms : d.nonterms.idx name = none ↔ _ := Symtab.idx_eq_none
  have hterms : d.terms.idx name = none ↔ _ := Symtab.idx_eq_none
  by_cases hname : name = Symbol.augmentedStart.name
  · simp [checkName, names, hname]
  · cases hn : d.nonterms.idx name <;> cases ht : d.terms.idx name <;>
      simp_all [checkName, names, declared, table, Function.comp_def]

theorem declare_eq_ok {kind : SymbolKind} {name : String} {attributes : List Attribute} {h : Handle}
    (hd : (d.declare kind name attributes).1 = .ok h) :
    name ∉ d.names ∧ h = ⟨kind, (d.declared kind).length⟩ ∧
      d.Gains kind ⟨name, attributes⟩ (d.declare kind name attributes).2 := by
  unfold declare at hd ⊢
  split at hd
  · contradiction
  · rename_i hname
    split at hd
    · contradiction
    · rename_i index t hinsert
      obtain rfl := Except.ok.inj hd
      obtain ⟨rfl, ht⟩ := Symtab.insertNew_eq_some (congrArg Prod.fst hinsert)
      rw [hinsert] at ht
      refine ⟨checkName_eq_ok.mp hname, by rw [len_table], fun k => ?_, ?_⟩
      · cases kind <;> cases k <;> simp_all [declared, table, withTable]
      · cases kind <;> exact ⟨rfl, rfl, rfl, rfl⟩

/-- A name that is found is that of the symbol of its handle. -/
theorem symbol_eq_ok {name : String} {h : Handle} (hd : d.symbol name = .ok h) :
    ∃ s, (d.declared h.kind)[h.index]? = some s ∧ s.name = name := by
  have hfound : ∀ (kind : SymbolKind) {i : Nat}, (d.table kind).idx name = some i →
      ∃ s, (d.declared kind)[i]? = some s ∧ s.name = name := by
    intro kind i hi
    obtain ⟨attributes, hentry⟩ := Symtab.getElem?_iter_of_idx hi
    exact ⟨⟨name, attributes⟩, by rw [declared, List.getElem?_map, hentry, Option.map_some], rfl⟩
  unfold symbol at hd
  split at hd
  · obtain rfl := Except.ok.inj hd
    exact hfound .nonterminal ‹_›
  · split at hd
    · obtain rfl := Except.ok.inj hd
      exact hfound .terminal ‹_›
    · contradiction

end Declarations

end SimpleLR
