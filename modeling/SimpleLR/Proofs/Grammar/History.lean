import SimpleLR.Grammar.Builder
import SimpleLR.Proofs.Except

/-!
# What a builder records

A history shows each operation with its answer. What was declared, added and chosen is read off the
operations that were not refused, and the builder records exactly that, whatever was refused in between
and however declarations and productions were mixed. A handle stands for the symbol that it was issued
for from then on, because declarations only go to the end of the symbols of their kind.
-/
namespace SimpleLR

/-- Operations with their answers, the first one in front. -/
abbrev History := List (Operation × Except GrammarError Reply)

/-- The symbol that an operation declares, and its kind. -/
def Operation.declares? : Operation → Option (SymbolKind × Symbol)
  | .nonterminal name attributes => some (.nonterminal, ⟨name, attributes⟩)
  | .terminal name attributes => some (.terminal, ⟨name, attributes⟩)
  | _ => none

/-- The start symbol that an operation chooses. -/
def Operation.chooses? : Operation → Option Handle
  | .start h => some h
  | _ => none

namespace History

/-- The symbols of a kind that were declared, in the order of their declarations. -/
def declared (kind : SymbolKind) (history : History) : List Symbol :=
  history.filterMap fun
    | (op, .ok _) => (op.declares?.filter (·.1 = kind)).map Prod.snd
    | (_, .error _) => none

/-- The operations that added a production, with the ids that they were answered. -/
def added (history : History) : List (Operation × Nat) :=
  history.filterMap fun
    | (op, .ok (.production id)) => some (op, id)
    | _ => none

/-- The start symbols that were chosen. -/
def chosen (history : History) : List Handle :=
  history.filterMap fun
    | (op, .ok _) => op.chooses?
    | (_, .error _) => none

/-- The handle is the answer to the declaration of the symbol. -/
def Issued (history : History) (h : Handle) (s : Symbol) : Prop :=
  ∃ op kind, (op, .ok (.symbol h)) ∈ history ∧ op.declares? = some (kind, s)

variable {history : History} {e : Operation × Except GrammarError Reply}

theorem declared_concat {kind : SymbolKind} :
    declared kind (history ++ [e]) = declared kind history ++ declared kind [e] :=
  List.filterMap_append

theorem added_concat : added (history ++ [e]) = added history ++ added [e] := List.filterMap_append

theorem chosen_concat : chosen (history ++ [e]) = chosen history ++ chosen [e] :=
  List.filterMap_append

theorem issued_concat {h : Handle} {s : Symbol} :
    Issued (history ++ [e]) h s ↔ history.Issued h s ∨
      ∃ op kind, e = (op, .ok (.symbol h)) ∧ op.declares? = some (kind, s) := by
  simp only [Issued, List.mem_append, List.mem_singleton, or_and_right, exists_or]
  simp only [eq_comm]

end History

namespace Builder

variable {M : Type → Type} [IndexMap M] [LawfulIndexMap M]

/-- The history of a builder of which some operations are asked. -/
def history (b : Builder M) (ops : List Operation) : History := ops.zip (b.performAll ops).1

end Builder

namespace Declarations

variable {M : Type → Type} [IndexMap M]

/-- The symbol that a handle stands for. -/
def symbol? (d : Declarations M) (h : Handle) : Option Symbol := (d.declared h.kind)[h.index]?

/-- The name is that of the symbol that the handle stands for. -/
def Names (d : Declarations M) (name : String) (h : Handle) : Prop :=
  ∃ s, d.symbol? h = some s ∧ s.name = name

/-- The draft is what the operation asks for. -/
inductive Drafts (d : Declarations M) : Operation → Draft → Prop
  | production {p : Draft} : Drafts d (.production ⟨.nonterminal, p.lhs⟩ p.rhs p.actions) p
  | rule {lhs : String} {rhs : List String} {p : Draft} (hl : d.Names lhs ⟨.nonterminal, p.lhs⟩)
      (hr : List.Forall₂ d.Names rhs p.rhs) : Drafts d (.rule lhs rhs p.actions) p

/-- What an operation that is not refused answers and makes of the declarations. -/
inductive Does (d : Declarations M) : Operation → Reply → Declarations M → Prop
  | declares {op : Operation} {kind : SymbolKind} {s : Symbol} {d' : Declarations M}
      (hop : op.declares? = some (kind, s)) (hg : d.Gains kind s d') :
      Does d op (.symbol ⟨kind, (d.declared kind).length⟩) d'
  | finds {name : String} {h : Handle} (hn : d.Names name h) : Does d (.symbol name) (.symbol h) d
  | adds {op : Operation} {p : Draft} (hop : d.Drafts op p) :
      Does d op (.production (d.drafts.length + 1)) { d with drafts := d.drafts ++ [p] }
  | chooses {i : Nat} : Does d (.start ⟨.nonterminal, i⟩) .done { d with start := some i }

section Does

variable {d d' : Declarations M}

theorem does_declare [LawfulIndexMap M] {kind : SymbolKind} {name : String} {attributes : List Attribute} {h : Handle}
    {op : Operation} (hop : op.declares? = some (kind, ⟨name, attributes⟩))
    (hd : (d.declare kind name attributes).1 = .ok h) :
    d.Does op (.symbol h) (d.declare kind name attributes).2 := by
  obtain ⟨-, rfl, hg⟩ := declare_eq_ok hd
  exact .declares hop hg

theorem does_production {lhs : Handle} {rhs : List Handle} {actions : List String} {id : Nat}
    {op : Operation} (hop : lhs.kind = .nonterminal → d.Drafts op ⟨lhs.index, rhs, actions⟩)
    (hd : (d.production lhs rhs actions).1 = .ok id) :
    d.Does op (.production id) (d.production lhs rhs actions).2 := by
  obtain ⟨hkind, -, -, rfl, heq⟩ := production_eq_ok hd
  rw [heq]
  exact .adds (hop hkind)

theorem does_rule [LawfulIndexMap M] {lhs : String} {rhs actions : List String} {id : Nat}
    (hd : (d.rule lhs rhs actions).1 = .ok id) :
    d.Does (.rule lhs rhs actions) (.production id) (d.rule lhs rhs actions).2 := by
  obtain ⟨left, right, hleft, hright, heq⟩ := rule_eq_ok hd
  rw [heq] at hd ⊢
  apply does_production (fun hkind => ?_) hd
  obtain ⟨kind, index⟩ := left
  obtain rfl : kind = .nonterminal := hkind
  have hnames : List.Forall₂ d.Names rhs right := (mapM_ok hright).imp fun _ _ => symbol_eq_ok
  exact .rule (p := ⟨index, right, actions⟩) (symbol_eq_ok hleft) hnames

theorem does_start {h : Handle} {u : Unit} (hd : (d.setStart h).1 = .ok u) :
    d.Does (.start h) .done (d.setStart h).2 := by
  obtain ⟨hkind, -, heq⟩ := setStart_eq_ok hd
  obtain ⟨kind, index⟩ := h
  obtain rfl : kind = .nonterminal := hkind
  rw [heq]
  exact .chooses

/-- An operation that is not refused does one of these things. -/
theorem does_of_apply [LawfulIndexMap M] {op : Operation} {reply : Reply} (h : (d.apply op).1 = .ok reply) :
    d.Does op reply (d.apply op).2 := by
  cases op with
  | nonterminal name attributes =>
    obtain ⟨_, hd, rfl⟩ := map_eq_ok h
    exact does_declare rfl hd
  | terminal name attributes =>
    obtain ⟨_, hd, rfl⟩ := map_eq_ok h
    exact does_declare rfl hd
  | symbol name =>
    obtain ⟨_, hd, rfl⟩ := map_eq_ok h
    exact .finds (symbol_eq_ok hd)
  | production lhs rhs actions =>
    obtain ⟨_, hd, rfl⟩ := map_eq_ok h
    apply does_production (fun hkind => ?_) hd
    obtain ⟨kind, index⟩ := lhs
    obtain rfl : kind = .nonterminal := hkind
    exact .production (p := ⟨index, rhs, actions⟩)
  | rule lhs rhs actions =>
    obtain ⟨_, hd, rfl⟩ := map_eq_ok h
    exact does_rule hd
  | start h =>
    obtain ⟨_, hd, rfl⟩ := map_eq_ok h
    exact does_start hd

/-- After a declaration one more handle stands for a symbol. -/
theorem Gains.symbol? {kind : SymbolKind} {s s' : Symbol} {h : Handle} (hg : d.Gains kind s d') :
    d'.symbol? h = some s' ↔
      d.symbol? h = some s' ∨ h = ⟨kind, (d.declared kind).length⟩ ∧ s' = s := by
  obtain ⟨k, index⟩ := h
  simp only [Declarations.symbol?, hg.declared, Handle.mk.injEq]
  by_cases hk : kind = k
  · subst hk
    simp only [if_true, true_and, List.getElem?_append]
    grind
  · simp [hk, Ne.symm hk]

/-- A handle goes on standing for its symbol. -/
theorem Does.symbol?_mono {op : Operation} {reply : Reply} (hd : d.Does op reply d') {h : Handle}
    {s : Symbol} (hs : d.symbol? h = some s) : d'.symbol? h = some s := by
  cases hd with
  | declares _ hg => exact hg.symbol?.mpr (.inl hs)
  | finds | adds | chooses => exact hs

theorem Names.mono (hsymbol : ∀ h s, d.symbol? h = some s → d'.symbol? h = some s) {name : String}
    {h : Handle} (hn : d.Names name h) : d'.Names name h := by
  obtain ⟨s, hs, hname⟩ := hn
  exact ⟨s, hsymbol h s hs, hname⟩

theorem Drafts.mono (hsymbol : ∀ h s, d.symbol? h = some s → d'.symbol? h = some s) {op : Operation}
    {p : Draft} (hp : d.Drafts op p) : d'.Drafts op p := by
  cases hp with
  | production => exact .production
  | rule hl hr => exact .rule (hl.mono hsymbol) (hr.imp fun _ _ => Names.mono hsymbol)

end Does

/-- The history has been recorded. -/
structure Records (d : Declarations M) (history : History) : Prop where
  declared : ∀ kind, d.declared kind = history.declared kind
  issued : ∀ h s, history.Issued h s ↔ d.symbol? h = some s
  drafts : List.Forall₂ (fun a p => d.Drafts a.1 p) history.added d.drafts
  ids : history.added.map Prod.snd = List.range' 1 d.drafts.length
  start : history.chosen.getLast? = d.start.map (⟨.nonterminal, ·⟩)

namespace Records

variable {d d' : Declarations M} {history : History}

theorem empty [LawfulIndexMap M] (name package : String) :
    (Declarations.empty name package : Declarations M).Records [] where
  declared kind := by cases kind <;> simp [Declarations.empty, Declarations.declared, table, History.declared]
  issued h s := by
    obtain ⟨kind, index⟩ := h
    cases kind <;>
      simp [symbol?, Declarations.empty, Declarations.declared, table, History.Issued]
  drafts := .nil
  ids := rfl
  start := rfl

/-- A refused operation leaves no trace. -/
theorem refused (hr : d.Records history) (op : Operation) (e : GrammarError) :
    d.Records (history ++ [(op, .error e)]) where
  declared kind := by simpa [History.declared_concat, History.declared] using hr.declared kind
  issued h s := by simpa [History.issued_concat] using hr.issued h s
  drafts := by simpa [History.added_concat, History.added] using hr.drafts
  ids := by simpa [History.added_concat, History.added] using hr.ids
  start := by simpa [History.chosen_concat, History.chosen] using hr.start

theorem does (hr : d.Records history) {op : Operation} {reply : Reply} (hd : d.Does op reply d') :
    d'.Records (history ++ [(op, .ok reply)]) := by
  have hsymbol : ∀ h s, d.symbol? h = some s → d'.symbol? h = some s := fun _ _ => hd.symbol?_mono
  have hmono : List.Forall₂ (fun a p => d'.Drafts a.1 p) history.added d.drafts :=
    hr.drafts.imp fun _ _ h => h.mono hsymbol
  cases hd with
  | @declares _ kind s _ hop hg =>
    have hchosen : op.chooses? = none := by cases op <;> first | rfl | contradiction
    obtain ⟨-, -, hdrafts, hstart⟩ := hg.same
    refine ⟨fun k => ?_, fun h s' => ?_, ?_, ?_, ?_⟩
    · rw [hg.declared k, hr.declared k, History.declared_concat]
      by_cases hk : kind = k <;> simp [History.declared, hop, hk]
    · rw [History.issued_concat, hr.issued, hg.symbol?]
      simp [hop, eq_comm]
    · simpa [History.added_concat, History.added, hdrafts] using hmono
    · simpa [History.added_concat, History.added, hdrafts] using hr.ids
    · simpa [History.chosen_concat, History.chosen, hchosen, hstart] using hr.start
  | finds =>
    refine ⟨fun k => ?_, fun h s' => ?_, ?_, ?_, ?_⟩
    · simpa [History.declared_concat, History.declared, Operation.declares?] using hr.declared k
    · simpa [History.issued_concat, Operation.declares?] using hr.issued h s'
    · simpa [History.added_concat, History.added] using hmono
    · simpa [History.added_concat, History.added] using hr.ids
    · simpa [History.chosen_concat, History.chosen, Operation.chooses?] using hr.start
  | @adds _ p hop =>
    have hnone : op.declares? = none ∧ op.chooses? = none := by cases hop <;> exact ⟨rfl, rfl⟩
    refine ⟨fun k => ?_, fun h s' => ?_, ?_, ?_, ?_⟩
    · simpa [History.declared_concat, History.declared, hnone] using hr.declared k
    · simpa [History.issued_concat, symbol?] using hr.issued h s'
    · rw [History.added_concat]
      exact List.rel_append hmono (.cons (hop.mono hsymbol) .nil)
    · rw [History.added_concat, List.map_append, hr.ids]
      simp [History.added, List.range'_concat, Nat.add_comm]
    · simpa [History.chosen_concat, History.chosen, hnone] using hr.start
  | chooses =>
    refine ⟨fun k => ?_, fun h s' => ?_, ?_, ?_, ?_⟩
    · simpa [History.declared_concat, History.declared, Operation.declares?] using hr.declared k
    · simpa [History.issued_concat, symbol?] using hr.issued h s'
    · simpa [History.added_concat, History.added] using hmono
    · simpa [History.added_concat, History.added] using hr.ids
    · simp [History.chosen, Operation.chooses?]

variable [LawfulIndexMap M] {b : Builder M}

/-- A builder records what is asked of it. -/
theorem perform (hr : b.Records history) (op : Operation) :
    (b.perform op).2.Records (history ++ [(op, (b.perform op).1)]) := by
  cases h : (b.perform op).1 with
  | ok reply => exact hr.does (does_of_apply h)
  | error e =>
    rw [Builder.perform_refused h]
    exact hr.refused op e

theorem performAll (hr : b.Records history) (ops : List Operation) :
    (b.performAll ops).2.Records (history ++ b.history ops) := by
  induction ops generalizing b history with
  | nil => simpa [Builder.history, Builder.performAll] using hr
  | cons op ops ih => simpa [Builder.history, Builder.performAll] using ih (hr.perform op)

end Records

end Declarations

end SimpleLR
