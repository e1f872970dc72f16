import SimpleLR.Proofs.Derivation
import SimpleLR.Proofs.Facts.Least
import SimpleLR.Proofs.Item.Basic
import Mathlib.Data.List.Basic
import Mathlib.Logic.Equiv.Basic

/-!
# Embeddings of grammars

A grammar is embedded in another one when its symbols and productions have counterparts there, by other
codes and ids, and the other one has no further productions that its start symbol leads to. Parses of
the start symbol then correspond to each other, and whatever the facts say of a symbol they say of its
counterpart.
-/
namespace SimpleLR

/-- The production with other codes and another id. -/
def Production.renamed (code id : Nat → Nat) (p : Production) : Production :=
  ⟨id p.id, code p.lhs, p.rhs.map code, p.actions⟩

def Item.renamed (code id : Nat → Nat) (i : Item) : Item := ⟨id i.production, i.dot, code i.lhs⟩

def Lookahead.renamed (code : Nat → Nat) : Lookahead → Lookahead
  | .terminal c => .terminal (code c)
  | .endOfInput => .endOfInput

theorem Production.renamed_itemAt (code id : Nat → Nat) (p : Production) (d : Nat) :
    (p.renamed code id).itemAt d = (p.itemAt d).renamed code id := rfl

/-- Each symbol and each production of `g` has its counterpart in `h`, and the start symbol of `h` leads
to counterparts only. -/
structure Embedding (g h : Grammar) where
  code : Equiv.Perm Nat
  id : Nat → Nat
  id_inj : ∀ p ∈ g.productions, ∀ q ∈ g.productions, id p.id = id q.id → p = q
  lt_symbolCount : ∀ c, code c < h.symbolCount ↔ c < g.symbolCount
  isNonterminal : ∀ c, h.isNonterminal (code c) = g.isNonterminal c
  start : h.startProduction = g.startProduction.renamed code id
  mem : ∀ p ∈ g.productions, p.renamed code id ∈ h.productions
  covers : ∀ q ∈ h.productions, h.Reachable q.lhs → ∃ p ∈ g.productions, q = p.renamed code id

namespace Grammar

variable {h : Grammar}

theorem reachable_start : h.Reachable h.start := ⟨[], [], .refl⟩

/-- What stands in a right side is reachable if the left side is. -/
theorem Reachable.rhs {q : Production} (hq : q ∈ h.productions) (hr : h.Reachable q.lhs) {c : Nat}
    (hc : c ∈ q.rhs) : h.Reachable c := by
  obtain ⟨a, b, hd⟩ := hr
  obtain ⟨u, v, huv⟩ := List.append_of_mem hc
  refine ⟨a ++ u, v ++ b, hd.tail ⟨q, hq, a, b, rfl, ?_⟩⟩
  simp [huv]

end Grammar

namespace Embedding

variable {g h : Grammar} (e : Embedding g h)

theorem map_inj {u v : List Nat} : u.map e.code = v.map e.code ↔ u = v :=
  (List.map_injective_iff.mpr e.code.injective).eq_iff

theorem isTerminal (c : Nat) : h.isTerminal (e.code c) = g.isTerminal c := by
  have := e.isNonterminal c
  simp only [Grammar.isNonterminal, Grammar.isTerminal, decide_eq_decide] at this ⊢
  omega

theorem mem_terminals {c : Nat} : e.code c ∈ h.terminals ↔ c ∈ g.terminals := by
  have := e.isTerminal c
  simp only [Grammar.isTerminal, decide_eq_decide] at this
  rw [Grammar.mem_terminals, Grammar.mem_terminals, this, e.lt_symbolCount]

theorem augmentedStart : h.augmentedStart = e.code g.augmentedStart := congrArg Production.lhs e.start

theorem code_start : h.start = e.code g.start :=
  List.singleton_inj.mp (congrArg Production.rhs e.start)

/-! Parses. -/

theorem yields {u r w : List Nat} (hy : g.Yields u r w) :
    h.Yields (u.map e.code) (r.map e.id) (w.map e.code) := by
  induction hy with
  | nil => exact .nil
  | terminal hc _ ih => exact .terminal (e.mem_terminals.mpr hc) ih
  | node hp _ _ ihr ih =>
    rw [List.map_append, List.map_append]
    exact .node (e.mem _ hp) ihr ih

/-- A parse of reachable symbols is that of their counterparts. -/
theorem exists_yields {u' r' w' : List Nat} (hy : h.Yields u' r' w') (hu : ∀ c ∈ u', h.Reachable c)
    {u : List Nat} (hmap : u' = u.map e.code) :
    ∃ r w, r' = r.map e.id ∧ w' = w.map e.code ∧ g.Yields u r w := by
  induction hy generalizing u with
  | nil =>
    obtain rfl := List.map_eq_nil_iff.mp hmap.symm
    exact ⟨[], [], rfl, rfl, .nil⟩
  | terminal hc _ ih =>
    obtain ⟨c, u, rfl, rfl, rfl⟩ := List.map_eq_cons_iff.mp hmap.symm
    obtain ⟨r, w, rfl, rfl, hr⟩ := ih (fun d hd => hu d (List.mem_cons_of_mem _ hd)) rfl
    exact ⟨r, c :: w, rfl, rfl, .terminal (e.mem_terminals.mp hc) hr⟩
  | @node q _ _ _ _ _ hq _ _ ihr ih =>
    obtain ⟨A, u, rfl, hA, rfl⟩ := List.map_eq_cons_iff.mp hmap.symm
    have hreach := hu q.lhs List.mem_cons_self
    obtain ⟨p, hp, rfl⟩ := e.covers q hq hreach
    obtain rfl := e.code.injective hA
    obtain ⟨r, v, rfl, rfl, hr⟩ := ihr (fun c hc => hreach.rhs hq hc) rfl
    obtain ⟨s, w, rfl, rfl, hs⟩ := ih (fun c hc => hu c (List.mem_cons_of_mem _ hc)) rfl
    exact ⟨r ++ p.id :: s, v ++ w, by simp [Production.renamed], by simp, .node hp hr hs⟩

/-- The parses of the start symbols correspond to each other. -/
theorem yields_iff {r' w : List Nat} :
    h.Yields [h.start] r' (w.map e.code) ↔ ∃ r, r' = r.map e.id ∧ g.Yields [g.start] r w := by
  constructor
  · intro hy
    have hreach : ∀ c ∈ [h.start], h.Reachable c := fun c hc =>
      List.mem_singleton.mp hc ▸ Grammar.reachable_start
    obtain ⟨r, v, hr, hv, hy⟩ := e.exists_yields hy hreach (u := [g.start]) (by simp [e.code_start])
    exact ⟨r, hr, e.map_inj.mp hv ▸ hy⟩
  · rintro ⟨r, rfl, hy⟩
    simpa [e.code_start] using e.yields hy

/-! Facts. -/

section Facts

variable {N : Nat → Prop} {B : Nat → Nat → Prop} {F : Nat → Lookahead → Prop}

theorem begins {u : List Nat} {x : Nat}
    (hb : First.Begins g (fun c => N (e.code c)) (fun c x => B (e.code c) (e.code x)) u x) :
    First.Begins h N B (u.map e.code) (e.code x) := by
  induction hb with
  | terminal hc => exact .terminal (e.isTerminal _ ▸ hc)
  | nonterminal hc hx => exact .nonterminal (e.isTerminal _ ▸ hc) hx
  | skip hc hn _ ih => exact .skip (e.isTerminal _ ▸ hc) hn ih

theorem comes {A : Nat} {u : List Nat} {la : Lookahead}
    (hc : Follow.Comes g (fun c => N (e.code c)) (fun c x => B (e.code c) (e.code x))
      (fun A la => F (e.code A) (la.renamed e.code)) A u la) :
    Follow.Comes h N B F (e.code A) (u.map e.code) (la.renamed e.code) := by
  cases hc with
  | begins hb => exact .begins (e.begins hb)
  | passes hn hF => exact .passes (List.forall_mem_map.mpr hn) hF

/-- A model of the rules of `h`, seen from `g`, is a model of the rules of `g`. -/
theorem models {I : Facts.Interpretation} (hI : I.Models h h.productions) :
    Facts.Interpretation.Models g g.productions
      ⟨fun c => I.IsNullable (e.code c), fun c x => I.BeginsWith (e.code c) (e.code x),
        fun A la => I.FollowedBy (e.code A) (la.renamed e.code)⟩ where
  nullable p hp hall := hI.nullable _ (e.mem p hp) (List.forall_mem_map.mpr hall)
  first p hp x hx := hI.first _ (e.mem p hp) _ (e.begins hx)
  follow p hp u A v hrhs hA la hla := by
    have hrhs' : (p.renamed e.code e.id).rhs = u.map e.code ++ e.code A :: v.map e.code := by
      simp [Production.renamed, hrhs]
    exact hI.follow _ (e.mem p hp) _ _ _ hrhs' (e.isNonterminal A ▸ hA) _ (e.comes hla)
  last := by
    have hlast := hI.last
    rwa [e.augmentedStart] at hlast

theorem follow {A : Nat} {la : Lookahead} (hla : la ∈ (Facts.ofGrammar g).follow A) :
    la.renamed e.code ∈ (Facts.ofGrammar h).follow (e.code A) :=
  (Facts.interpretation_included (e.models (Facts.closed_ofGrammar h).models)).follow A la hla

end Facts

end Embedding

end SimpleLR
