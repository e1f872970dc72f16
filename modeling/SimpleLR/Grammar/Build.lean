import SimpleLR.Grammar.Builder

/-!
# From a builder to a grammar

Building settles the symbol codes. Since codes go by kind first, a terminal that was declared early
still comes after the last nonterminal. One loop over the drafts numbers the productions and files each
under its left side, behind the start production.
-/
namespace SimpleLR

namespace Declarations

variable {M : Type → Type} [IndexMap M] (d : Declarations M)

/-- The symbols of the built grammar, each at its code. -/
def symbols : List Symbol := d.declared .nonterminal ++ Symbol.augmentedStart :: d.declared .terminal

/-- The code of the augmented start symbol, which comes after the declared nonterminals. -/
def augmentedStart : Nat := d.nonterms.len

/-- A draft in symbol codes. -/
def codeDraft (id : Nat) (p : Draft) : Production :=
  ⟨id, p.lhs, p.rhs.map (Handle.code d.augmentedStart), p.actions⟩

/-- One round of the loop: the draft becomes the next production and is filed under its left side. -/
def addDraft (built : Array Production × Array (Array Nat)) (entry : Draft × Nat) :
    Array Production × Array (Array Nat) :=
  let p := d.codeDraft (entry.2 + 1) entry.1
  (built.1.push p, p.file built.2)

/-- The production that derives the start symbol. -/
def startProduction (start : Nat) : Production := ⟨0, d.augmentedStart, [start], []⟩

/-- All productions, each at its id, and the ids of the productions of each nonterminal. -/
def code (start : Nat) : Array Production × Array (Array Nat) :=
  d.drafts.zipIdx.foldl d.addDraft (#[d.startProduction start],
    (d.startProduction start).file (Array.replicate (d.augmentedStart + 1) #[]))

/-- The drafts in symbol codes, numbered from 1 on. -/
def rules : List Production := d.drafts.zipIdx.map fun e => d.codeDraft (e.2 + 1) e.1

variable {d}

/-- The loop does two things at once, which could be done one after the other. -/
theorem code_eq (start : Nat) : d.code start = ((d.startProduction start :: d.rules).toArray,
    Production.filed (d.augmentedStart + 1) (d.startProduction start :: d.rules)) := by
  have hfold : ∀ (l : List (Draft × Nat)) (built : Array Production × Array (Array Nat)),
      l.foldl d.addDraft built =
        (built.1 ++ (l.map fun e => d.codeDraft (e.2 + 1) e.1).toArray,
          (l.map fun e => d.codeDraft (e.2 + 1) e.1).foldl Production.file built.2) := by
    intro l
    induction l with
    | nil => simp
    | cons e l ih =>
      intro built
      rw [List.foldl_cons, ih]
      simp [addDraft]
  rw [code, hfold]
  simp [rules, Production.filed]

theorem rules_map_id : d.rules.map Production.id = List.range' 1 d.rules.length := by
  apply List.ext_getElem
  · simp
  · intro i h₁ h₂
    simp [rules, codeDraft]
    omega

variable [LawfulIndexMap M]

theorem augmentedStart_eq : d.augmentedStart = (d.declared .nonterminal).length :=
  len_table .nonterminal

theorem symbols_augmentedStart : d.symbols[d.augmentedStart]? = some Symbol.augmentedStart := by
  simp [symbols, augmentedStart_eq]

theorem code_within {h : Handle} (hh : d.Declares h) :
    h.code d.augmentedStart < d.symbols.length ∧ h.code d.augmentedStart ≠ d.augmentedStart := by
  rw [Declares, len_table] at hh
  obtain ⟨_ | _, index⟩ := h <;>
    simp only [Handle.code, symbols, augmentedStart_eq, List.length_append, List.length_cons] at hh ⊢ <;>
    omega

namespace Valid

variable (hv : d.Valid)

include hv

omit [LawfulIndexMap M]

theorem symbols_names_nodup : (d.symbols.map Symbol.name).Nodup :=
  (List.Perm.map Symbol.name List.perm_middle).nodup_iff.mpr hv.names_nodup

theorem start_lt {start : Nat} (hs : d.start = some start) : start < d.augmentedStart :=
  hv.start_declared start hs

theorem rules_within [LawfulIndexMap M] : ∀ p ∈ d.rules, p.lhs < d.augmentedStart ∧
    ∀ c ∈ p.rhs, c < d.symbols.length ∧ c ≠ d.augmentedStart := by
  intro p hp
  obtain ⟨⟨draft, i⟩, hmem, rfl⟩ := List.mem_map.mp hp
  obtain ⟨hlhs, hrhs⟩ := hv.drafts_declared draft (List.fst_mem_of_mem_zipIdx hmem)
  refine ⟨hlhs, fun c hc => ?_⟩
  obtain ⟨h, hh, rfl⟩ := List.mem_map.mp hc
  exact code_within (hrhs h hh)

end Valid

end Declarations

/-- The grammar of the declarations; only a start symbol can be missing. -/
def Builder.build {M : Type → Type} [IndexMap M] [LawfulIndexMap M] (b : Builder M) :
    Except GrammarError Grammar :=
  match hs : b.start with
  | none => .error .missingStart
  | some start => .ok
    { name := b.name
      package := b.package
      symbols := b.symbols
      augmentedStart := b.augmentedStart
      start := start
      rules := (b.code start).1.toList.tail
      byLhs := (b.code start).2
      start_lt := b.valid.start_lt hs
      symbols_augmentedStart := Declarations.symbols_augmentedStart
      names_nodup := b.valid.symbols_names_nodup
      rules_ids := by simpa [Declarations.code_eq] using Declarations.rules_map_id
      rules_sides := by simpa [Declarations.code_eq] using b.valid.rules_within
      byLhs_getElem? := by
        simp only [Declarations.code_eq]
        exact Production.filed_getElem? _ _ }

end SimpleLR
