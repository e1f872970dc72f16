import SimpleLR.Grammar.Build
import SimpleLR.Proofs.Grammar.History
import Mathlib.Data.List.Nodup
import Mathlib.Data.List.Perm.Basic

/-!
# Built grammars

Whatever was asked of a builder and in what order, the grammar that is built from it is well formed and
holds the declared symbols in the order of their codes and the added productions in the order of their
ids. A handle comes to the code of the symbol that it was issued for, which is settled only now: a
nonterminal that was declared late moves all terminals up by one.
-/
namespace SimpleLR

namespace History

variable (history : History)

/-- In the grammar, the code is that of the symbol that the handle was issued for. -/
def Stands (g : Grammar) (h : Handle) (code : Nat) : Prop :=
  ∃ s, history.Issued h s ∧ g.symbol? code = some s

/-- In the grammar, the production is the one that the operation asks for, by handles or by names. -/
inductive Asks (g : Grammar) : Operation → Production → Prop
  | production {lhs : Handle} {rhs : List Handle} {p : Production} (hl : history.Stands g lhs p.lhs)
      (hr : List.Forall₂ (history.Stands g) rhs p.rhs) : Asks g (.production lhs rhs p.actions) p
  | rule {lhs : String} {rhs : List String} {p : Production} (hl : g.symbolName? p.lhs = some lhs)
      (hr : List.Forall₂ (fun name c => g.symbolName? c = some name) rhs p.rhs) :
      Asks g (.rule lhs rhs p.actions) p

/-- The grammar is well formed and made of what was declared, added and chosen. -/
structure Describes (g : Grammar) : Prop where
  names_nodup : (g.symbols.map Symbol.name).Nodup
  symbols : g.symbols =
    history.declared .nonterminal ++ Symbol.augmentedStart :: history.declared .terminal
  augmentedStart : g.augmentedStart = (history.declared .nonterminal).length
  /-- A handle is issued only once. -/
  issued : ∀ h s s', history.Issued h s → history.Issued h s' → s = s'
  productions : ∃ rules, g.productions = ⟨0, g.augmentedStart, [g.start], []⟩ :: rules ∧
    List.Forall₂ (fun a (p : Production) => a.2 = p.id ∧ history.Asks g a.1 p) history.added rules
  ids : ∀ (i : Nat) (p : Production), g.productions[i]? = some p → p.id = i
  lhs : ∀ (i : Nat) (p : Production), g.productions[i]? = some p → 0 < i →
    g.isNonterminal p.lhs ∧ p.lhs ≠ g.augmentedStart
  rhs : ∀ p ∈ g.productions, ∀ c ∈ p.rhs, c < g.symbolCount ∧ c ≠ g.augmentedStart
  start : g.isNonterminal g.start ∧ g.start ≠ g.augmentedStart
  chosen : ∃ h, history.chosen.getLast? = some h ∧ history.Stands g h g.start
  /-- Each production is listed under its own left side and nowhere else. -/
  listed : (g.nonterminals.flatMap g.productionsOf).Perm g.productions
  productionsOf : ∀ A ∈ g.nonterminals, g.productionsOf? A = some (g.productionsOf A) ∧
    (∀ p ∈ g.productionsOf A, p.lhs = A) ∧ ((g.productionsOf A).map Production.id).Pairwise (· < ·)

end History

namespace Grammar

variable {g : Grammar}

theorem productions_nodup : g.productions.Nodup := by
  apply List.Nodup.of_map Production.id
  rw [productions_map_id]
  exact List.nodup_range

theorem productionsOf_ids_lt (A : Nat) :
    ((g.productionsOf A).map Production.id).Pairwise (· < ·) := by
  have hids : (g.productions.map Production.id).Pairwise (· < ·) := by
    rw [productions_map_id]
    exact List.pairwise_lt_range
  rw [productionsOf_eq_filter]
  exact hids.sublist (List.filter_sublist.map Production.id)

theorem productionsOf_nodup (A : Nat) : (g.productionsOf A).Nodup := by
  rw [productionsOf_eq_filter]
  exact productions_nodup.filter _

theorem productionsOf_disjoint {A B : Nat} (h : A ≠ B) :
    List.Disjoint (g.productionsOf A) (g.productionsOf B) := by
  intro p hA hB
  exact h ((mem_productionsOf.mp hA).2.symm.trans (mem_productionsOf.mp hB).2)

/-- The lists of all nonterminals have each production once. -/
theorem productionsOf_perm : (g.nonterminals.flatMap g.productionsOf).Perm g.productions := by
  have hnodup : (g.nonterminals.flatMap g.productionsOf).Nodup :=
    List.nodup_flatMap.mpr ⟨fun A _ => productionsOf_nodup A, List.nodup_range.imp productionsOf_disjoint⟩
  apply (List.perm_ext_iff_of_nodup hnodup productions_nodup).mpr
  intro p
  rw [List.mem_flatMap]
  constructor
  · rintro ⟨A, -, hp⟩
    exact (mem_productionsOf.mp hp).1
  · intro hp
    exact ⟨p.lhs, List.mem_range.mpr (lhs_lt hp), mem_productionsOf.mpr ⟨hp, rfl⟩⟩

end Grammar

section Built

variable {M : Type → Type} [IndexMap M] [LawfulIndexMap M]

/-- A handle comes to the code of its symbol. -/
theorem Declarations.symbols_code {d : Declarations M} (h : Handle) {s : Symbol}
    (hs : d.symbol? h = some s) : d.symbols[h.code d.augmentedStart]? = some s := by
  obtain ⟨kind, index⟩ := h
  rw [augmentedStart_eq, symbols]
  cases kind with
  | nonterminal =>
    have hi : (d.declared .nonterminal)[index]? = some s := hs
    exact (List.getElem?_append_left (List.getElem?_eq_some_iff.mp hi).1).trans hi
  | terminal =>
    have hi : (d.declared .terminal)[index]? = some s := hs
    simpa [Handle.code, Nat.add_assoc, List.getElem?_append_right, Nat.add_comm 1] using hi

variable {b : Builder M} {g : Grammar} {history : History}

theorem Builder.build_eq_ok (h : b.build = .ok g) : g.name = b.name ∧ g.package = b.package ∧
    g.symbols = b.symbols ∧ g.augmentedStart = b.augmentedStart ∧ b.start = some g.start ∧
      g.rules = b.rules := by
  rw [build] at h
  split at h
  · contradiction
  · obtain rfl := Except.ok.inj h
    exact ⟨rfl, rfl, rfl, rfl, ‹_›, by simp [Declarations.code_eq]⟩

namespace Declarations

section Records

variable (hr : b.Records history) (hb : b.build = .ok g)

include hr hb

/-- In the built grammar a handle stands at its code. -/
theorem Records.stands {h : Handle} (hh : b.Declares h) : history.Stands g h (h.code b.augmentedStart) := by
  rw [Declares, len_table] at hh
  have hs : b.symbol? h = some (b.declared h.kind)[h.index] := List.getElem?_eq_getElem hh
  refine ⟨_, (hr.issued h _).mpr hs, ?_⟩
  rw [Grammar.symbol?, (Builder.build_eq_ok hb).2.2.1]
  exact symbols_code h hs

omit hr in
theorem symbolName?_of_names {name : String} {h : Handle} (hn : b.Names name h) :
    g.symbolName? (h.code b.augmentedStart) = some name := by
  obtain ⟨s, hs, rfl⟩ := hn
  rw [Grammar.symbolName?, Grammar.symbol?, (Builder.build_eq_ok hb).2.2.1, symbols_code h hs]
  rfl

/-- A draft in symbol codes is the production that was asked for. -/
theorem Records.asks {p : Draft} (hp : p ∈ b.drafts) {op : Operation} (hop : b.Drafts op p) (id : Nat) :
    history.Asks g op (b.codeDraft id p) := by
  obtain ⟨hlhs, hrhs⟩ := b.valid.drafts_declared p hp
  cases hop with
  | production =>
    refine .production (p := b.codeDraft id p) (hr.stands hb hlhs) ?_
    exact List.forall₂_map_right_iff.mpr (List.forall₂_same.mpr fun h hh => hr.stands hb (hrhs h hh))
  | rule hl hnames =>
    refine .rule (p := b.codeDraft id p) (symbolName?_of_names hb hl) ?_
    exact List.forall₂_map_right_iff.mpr (hnames.imp fun _ _ => symbolName?_of_names hb)

theorem Records.asks_rules :
    List.Forall₂ (fun a p => a.2 = p.id ∧ history.Asks g a.1 p) history.added g.rules := by
  have hlength := hr.drafts.length_eq
  obtain ⟨-, -, -, -, -, hrules⟩ := Builder.build_eq_ok hb
  rw [hrules, List.forall₂_iff_get]
  refine ⟨by simpa [rules] using hlength, fun i hi hi' => ?_⟩
  have hd : i < b.drafts.length := hlength ▸ hi
  have hid : (history.added.get ⟨i, hi⟩).2 = i + 1 := by
    have := congrArg (·[i]?) hr.ids
    simpa [hi, hd, Nat.add_comm] using this
  have hop := (List.forall₂_iff_get.mp hr.drafts).2 i hi hd
  have hasks := hr.asks hb (List.getElem_mem hd) hop (i + 1)
  simpa [rules, codeDraft] using And.intro hid hasks

theorem Records.describes : history.Describes g := by
  obtain ⟨-, -, hsymbols, haugmented, hstart, -⟩ := Builder.build_eq_ok hb
  refine
    { names_nodup := g.names_nodup
      symbols := ?_
      augmentedStart := ?_
      issued := fun h s s' hs hs' => ?_
      productions := ⟨g.rules, rfl, hr.asks_rules hb⟩
      ids := fun i p hp => Grammar.id_of_production? hp
      lhs := fun i p hp hi => ?_
      rhs := fun p hp c hc => Grammar.rhs_lt hp hc
      start := ⟨?_, Nat.ne_of_lt g.start_lt⟩
      chosen := ⟨⟨.nonterminal, g.start⟩, ?_, ?_⟩
      listed := Grammar.productionsOf_perm
      productionsOf := fun A hA => ⟨?_, fun p hp => (Grammar.mem_productionsOf.mp hp).2,
        Grammar.productionsOf_ids_lt A⟩ }
  · rw [hsymbols, ← hr.declared, ← hr.declared]
    rfl
  · rw [haugmented, augmentedStart_eq, hr.declared]
  · exact Option.some.inj (((hr.issued h s).mp hs).symm.trans ((hr.issued h s').mp hs'))
  · obtain ⟨i, rfl⟩ := Nat.exists_eq_succ_of_ne_zero (Nat.ne_of_gt hi)
    have hlt := (g.rules_sides p (List.mem_of_getElem? hp)).1
    exact ⟨decide_eq_true (Nat.lt_succ_of_lt hlt), Nat.ne_of_lt hlt⟩
  · exact decide_eq_true (Nat.lt_succ_of_lt g.start_lt)
  · rw [hr.start, hstart]
    rfl
  · exact hr.stands hb (h := ⟨.nonterminal, g.start⟩) (b.valid.start_declared g.start hstart)
  · rw [Grammar.productionsOf?_eq, Grammar.productionsOf_eq_filter, if_pos]
    exact decide_eq_true (List.mem_range.mp hA)

end Records

end Declarations

end Built

/-- A grammar that is built after any operations is well formed, and the history of the operations
describes it. -/
theorem History.describes_build {M : Type → Type} [IndexMap M] [LawfulIndexMap M] {name package : String}
    {ops : List Operation} {g : Grammar}
    (hb : ((Builder.empty name package : Builder M).performAll ops).2.build = .ok g) :
    ((Builder.empty name package : Builder M).history ops).Describes g := by
  have hr := Declarations.Records.performAll (b := (Builder.empty name package : Builder M))
    (.empty name package) ops
  exact hr.describes hb

/-- Operations of which the third, the sixth and the ninth are refused. The terminal `a` is declared
first, and the nonterminal `T` after the production that moves it. -/
def History.mixed : List Operation :=
  [.terminal "a" [⟨"i32", "value"⟩], .nonterminal "S" [], .nonterminal "a" [],
    .production ⟨.nonterminal, 0⟩ [⟨.terminal, 0⟩, ⟨.nonterminal, 0⟩] ["push"], .start ⟨.nonterminal, 0⟩,
    .production ⟨.nonterminal, 0⟩ [⟨.nonterminal, 1⟩] [], .nonterminal "T" [],
    .rule "S" ["a", "T"] [], .start ⟨.terminal, 0⟩, .start ⟨.nonterminal, 1⟩]

theorem History.describes_build_mixed : ∃ g,
    ((Builder.empty "g" "p").performAll mixed).2.build = .ok g ∧
      ((Builder.empty "g" "p").history mixed).Describes g ∧
      g.productions = [⟨0, 2, [1], []⟩, ⟨1, 0, [3, 0], ["push"]⟩, ⟨2, 0, [3, 1], []⟩] := by
  have hbuild : (((Builder.empty "g" "p").performAll mixed).2.build.toOption.map
      Grammar.productions) =
        some [⟨0, 2, [1], []⟩, ⟨1, 0, [3, 0], ["push"]⟩, ⟨2, 0, [3, 1], []⟩] := by
    decide +kernel
  obtain ⟨g, hg, hproductions⟩ := Option.map_eq_some_iff.mp hbuild
  have hg := eq_ok_of_toOption hg
  exact ⟨g, hg, describes_build hg, hproductions⟩

end SimpleLR
