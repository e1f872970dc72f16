import SimpleLR.Grammar.Outline
import SimpleLR.Proofs.Embedding.Basic
import Mathlib.Logic.Equiv.Basic

/-!
# Declarations in another order

Codes go by the order in which symbols are declared, and ids by the order in which productions are added.
So the same declarations in another order give the same grammar by other codes and ids, and each of the
two grammars is embedded in the other one.
-/
namespace SimpleLR

/-- A permutation moved up by one, with 0 in its place. -/
def shifted (τ : Equiv.Perm Nat) : Equiv.Perm Nat where
  toFun
    | 0 => 0
    | i + 1 => τ i + 1
  invFun
    | 0 => 0
    | i + 1 => τ.symm i + 1
  left_inv i := by cases i <;> simp
  right_inv i := by cases i <;> simp

@[simp] theorem shifted_zero (τ : Equiv.Perm Nat) : shifted τ 0 = 0 := rfl

@[simp] theorem shifted_succ (τ : Equiv.Perm Nat) (i : Nat) : shifted τ (i + 1) = τ i + 1 := rfl

/-- Lists with the same entries in another order have them at other places. -/
theorem exists_places {α : Type} {l l' : List α} (h : l.Perm l') :
    ∃ τ : Equiv.Perm Nat, ∀ i, l'[τ i]? = l[i]? := by
  induction h with
  | nil => exact ⟨Equiv.refl Nat, fun _ => rfl⟩
  | cons x _ ih =>
    obtain ⟨τ, hτ⟩ := ih
    refine ⟨shifted τ, fun i => ?_⟩
    cases i with
    | zero => rfl
    | succ i => simpa using hτ i
  | swap x y l =>
    refine ⟨Equiv.swap 0 1, fun i => ?_⟩
    match i with
    | 0 => simp
    | 1 => simp
    | i + 2 => simp [Equiv.swap_apply_of_ne_of_ne]
  | trans _ _ ih ih' =>
    obtain ⟨τ, hτ⟩ := ih
    obtain ⟨τ', hτ'⟩ := ih'
    exact ⟨τ.trans τ', fun i => (hτ' (τ i)).trans (hτ i)⟩

/-- The outlines list the same symbols and rules, perhaps in another order, and choose the same start
symbol. -/
structure Outline.Reorders (o o' : Outline) : Prop where
  nonterminals : o.nonterminals.Perm o'.nonterminals
  terminals : o.terminals.Perm o'.terminals
  rules : o.rules.Perm o'.rules
  start : o.start = o'.start

namespace Grammar

variable (g : Grammar)

/-- A production by names. -/
def ruleOf (p : Production) : Rule := ⟨g.symbolName p.lhs, p.rhs.map g.symbolName, p.actions⟩

/-- A grammar by names. -/
def outline : Outline where
  name := g.name
  package := g.package
  nonterminals := g.symbols.take g.augmentedStart
  terminals := g.symbols.drop (g.augmentedStart + 1)
  rules := g.rules.map g.ruleOf
  start := g.symbolName? g.start

variable {g}

theorem symbols_eq :
    g.symbols = g.outline.nonterminals ++ Symbol.augmentedStart :: g.outline.terminals := by
  obtain ⟨hlt, heq⟩ := List.getElem?_eq_some_iff.mp g.symbols_augmentedStart
  rw [outline, ← heq, List.getElem_cons_drop, List.take_append_drop]

theorem symbol?_isSome {c : Nat} : (g.symbol? c).isSome ↔ c < g.symbolCount := by
  simp [symbol?, symbolCount]

/-- The nonterminals are the declared ones and the augmented start symbol. -/
theorem isNonterminal_iff {c : Nat} : g.isNonterminal c = true ↔
    ∃ s, g.symbol? c = some s ∧ (s ∈ g.outline.nonterminals ∨ s = .augmentedStart) := by
  rw [isNonterminal, decide_eq_true_iff, nonterminalCount, Nat.lt_succ_iff_lt_or_eq]
  constructor
  · rintro (hlt | rfl)
    · have hc : c < g.symbols.length := Nat.lt_trans hlt augmentedStart_lt_symbolCount
      refine ⟨g.symbols[c], List.getElem?_eq_getElem hc, .inl ?_⟩
      exact List.mem_take_iff_getElem.mpr ⟨c, by omega, rfl⟩
    · exact ⟨.augmentedStart, g.symbols_augmentedStart, .inr rfl⟩
  · rintro ⟨s, hs, hmem | rfl⟩
    · obtain ⟨d, hd, rfl⟩ := List.mem_take_iff_getElem.mp hmem
      have hcd : c = d := symbol?_inj hs (List.getElem?_eq_getElem _)
      omega
    · exact .inr (symbol?_inj hs g.symbols_augmentedStart)

/-- Only production 0 has the augmented start symbol on its left side. -/
theorem eq_startProduction {p : Production} (hp : p ∈ g.productions) (hl : p.lhs = g.augmentedStart) :
    p = g.startProduction := by
  rcases List.mem_cons.mp hp with rfl | hrule
  · rfl
  · exact absurd hl (Nat.ne_of_lt (g.rules_sides p hrule).1)

section

variable {h : Grammar} {code : Equiv.Perm Nat} (hcode : ∀ c, h.symbol? (code c) = g.symbol? c)

include hcode

theorem code_augmentedStart : code g.augmentedStart = h.augmentedStart :=
  symbol?_inj ((hcode _).trans g.symbols_augmentedStart) h.symbols_augmentedStart

theorem symbolName?_code (c : Nat) : h.symbolName? (code c) = g.symbolName? c := by
  rw [symbolName?, hcode, symbolName?]

theorem eq_code {c d : Nat} (hc : c < g.symbolCount) (hd : d < h.symbolCount)
    (hname : h.symbolName d = g.symbolName c) : d = code c := by
  apply symbolName?_inj (symbolName?_eq_some hd)
  rw [symbolName?_code hcode, symbolName?_eq_some hc, hname]

/-- Productions with the same names and the right ids are each other's. -/
theorem eq_renamed {id : Nat → Nat} {p q : Production} (hp : p ∈ g.productions)
    (hq : q ∈ h.productions) (hid : q.id = id p.id) (hrule : h.ruleOf q = g.ruleOf p) :
    q = p.renamed code id := by
  obtain ⟨hlhs, hrhs, hactions⟩ := Rule.mk.inj hrule
  have hlhs' : q.lhs = code p.lhs :=
    eq_code hcode (lhs_lt_symbolCount hp) (lhs_lt_symbolCount hq) hlhs
  have hrhs' : q.rhs = p.rhs.map code := by
    apply List.ext_getElem?
    intro i
    have hi := congrArg (·[i]?) hrhs
    simp only [List.getElem?_map] at hi ⊢
    cases hd : q.rhs[i]? with
    | none => simpa [hd, eq_comm] using hi
    | some d =>
      rw [hd] at hi
      obtain ⟨c, hc, hname⟩ := Option.map_eq_some_iff.mp hi.symm
      have hcode := eq_code hcode (rhs_lt hp (List.mem_of_getElem? hc)).1
        (rhs_lt hq (List.mem_of_getElem? hd)).1 hname.symm
      simp [hc, hcode]
  cases q
  simp only [Production.renamed, Production.mk.injEq]
  exact ⟨hid, hlhs', hrhs', hactions⟩

end

end Grammar

/-- One grammar is the other one by other symbol codes, with those of the nonterminals kept apart, and by
other production ids. -/
structure Reordering (g h : Grammar) where
  code : Equiv.Perm Nat
  id : Equiv.Perm Nat
  symbol? : ∀ c, h.symbol? (code c) = g.symbol? c
  isNonterminal : ∀ c, h.isNonterminal (code c) = g.isNonterminal c
  production? : ∀ i, h.production? (id i) = (g.production? i).map (Production.renamed code id)

namespace Reordering

variable {g h : Grammar}

theorem production?_renamed (ρ : Reordering g h) {i : Nat} {p : Production}
    (hp : g.production? i = some p) : h.production? (ρ.id i) = some (p.renamed ρ.code ρ.id) := by
  rw [ρ.production?, hp]
  rfl

theorem exists_production (ρ : Reordering g h) {q : Production} (hq : q ∈ h.productions) :
    ∃ p ∈ g.productions, q = p.renamed ρ.code ρ.id := by
  have hid := ρ.production? (ρ.id.symm q.id)
  rw [Equiv.apply_symm_apply, Grammar.production?_id hq] at hid
  obtain ⟨p, hp, heq⟩ := Option.map_eq_some_iff.mp hid.symm
  exact ⟨p, Grammar.mem_productions_of_production? hp, heq.symm⟩

/-- A reordered grammar is embedded in the other one. -/
def embedding (ρ : Reordering g h) : Embedding g h where
  code := ρ.code
  id := ρ.id
  id_inj _ hp _ hq hid := Production.eq_of_id_eq hp hq (ρ.id.injective hid)
  lt_symbolCount c := by
    rw [← Grammar.symbol?_isSome, ρ.symbol?, Grammar.symbol?_isSome]
  isNonterminal := ρ.isNonterminal
  start := by
    have haugmented := Grammar.code_augmentedStart ρ.symbol?
    have hmem := Grammar.mem_productions_of_production? (ρ.production?_renamed (i := 0) rfl)
    exact (Grammar.eq_startProduction hmem haugmented).symm
  mem p hp :=
    Grammar.mem_productions_of_production? (ρ.production?_renamed (Grammar.production?_id hp))
  covers _ hq _ := ρ.exists_production hq

theorem renamed_symm (ρ : Reordering g h) (p : Production) :
    (p.renamed ρ.code ρ.id).renamed ρ.code.symm ρ.id.symm = p := by
  simp [Production.renamed]

/-- The reordering the other way. -/
def symm (ρ : Reordering g h) : Reordering h g where
  code := ρ.code.symm
  id := ρ.id.symm
  symbol? c := by rw [← ρ.symbol?, Equiv.apply_symm_apply]
  isNonterminal c := by rw [← ρ.isNonterminal, Equiv.apply_symm_apply]
  production? i := by
    have hid := ρ.production? (ρ.id.symm i)
    rw [Equiv.apply_symm_apply] at hid
    rw [hid, Option.map_map]
    cases g.production? (ρ.id.symm i) with
    | none => rfl
    | some p => simp [ρ.renamed_symm]

end Reordering

namespace Outline.Reorders

variable {g h : Grammar} (hr : g.outline.Reorders h.outline) {code : Equiv.Perm Nat}
  (hcode : ∀ c, h.symbol? (code c) = g.symbol? c)

include hr

theorem symbols_perm : g.symbols.Perm h.symbols := by
  rw [Grammar.symbols_eq, h.symbols_eq]
  exact hr.nonterminals.append (hr.terminals.cons _)

include hcode

theorem isNonterminal (c : Nat) : h.isNonterminal (code c) = g.isNonterminal c := by
  rw [Bool.eq_iff_iff, Grammar.isNonterminal_iff, Grammar.isNonterminal_iff, hcode]
  simp only [hr.nonterminals.mem_iff]

theorem start_eq : h.start = code g.start := by
  apply Grammar.eq_code hcode Grammar.start_lt_symbolCount Grammar.start_lt_symbolCount
  have hstart : g.symbolName? g.start = h.symbolName? h.start := hr.start
  simp [Grammar.symbolName, hstart]

end Outline.Reorders

/-- Grammars with the same declarations are each other's by other codes and ids. -/
theorem Outline.Reorders.exists_reordering {g h : Grammar} (hr : g.outline.Reorders h.outline) :
    Nonempty (Reordering g h) := by
  obtain ⟨code, hcode⟩ := exists_places hr.symbols_perm
  obtain ⟨τ, hτ⟩ := exists_places hr.rules
  refine ⟨⟨code, shifted τ, hcode, hr.isNonterminal hcode, fun i => ?_⟩⟩
  cases i with
  | zero =>
    simp [Grammar.production?, Grammar.productions, Grammar.startProduction, Production.renamed,
      Grammar.code_augmentedStart hcode, hr.start_eq hcode]
  | succ i =>
    have hrule : (h.rules[τ i]?).map h.ruleOf = (g.rules[i]?).map g.ruleOf := by
      simpa [Grammar.outline] using hτ i
    have hg : g.production? (i + 1) = g.rules[i]? := rfl
    have hh : h.production? (shifted τ (i + 1)) = h.rules[τ i]? := rfl
    rw [hg, hh]
    cases hp : g.rules[i]? with
    | none => simpa [hp] using hrule
    | some p =>
      rw [hp] at hrule
      obtain ⟨q, hq, hname⟩ := Option.map_eq_some_iff.mp hrule
      rw [hq]
      refine congrArg some (Grammar.eq_renamed hcode ?_ ?_ ?_ hname)
      · exact Grammar.mem_productions_of_production? (hg.trans hp)
      · exact Grammar.mem_productions_of_production? (hh.trans hq)
      · rw [Grammar.id_of_production? (hg.trans hp), Grammar.id_of_production? (hh.trans hq)]

end SimpleLR
