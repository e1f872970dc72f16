import SimpleLR.Proofs.Derivation
import SimpleLR.Proofs.Item.Closure
import Mathlib.Data.List.Chain

/-!
# Closures are least closed sets

The initial items in a closure are found along chains of nonterminals: a chain begins with a symbol after a
dot, goes on from a nonterminal to what a production of it starts with, and ends in the left side of the
item. A closure is thus made up of the closures of its given items one by one, and so is a goto.
-/
namespace SimpleLR

section Union

variable {α : Type} [Ord α] [Std.TransOrd α]

/-- The elements of both sets. -/
instance : Union (OrdSet α) := ⟨fun s t => s.insertAll t.toList⟩

@[simp] theorem OrdSet.mem_union [Std.LawfulEqOrd α] {s t : OrdSet α} {a : α} :
    a ∈ s ∪ t ↔ a ∈ s ∨ a ∈ t := by
  rw [show s ∪ t = s.insertAll t.toList from rfl, mem_insertAll, or_comm]
  rfl

end Union

/-- A production of the nonterminal starts with the symbol. -/
def Grammar.StartsWith (g : Grammar) (A X : Nat) : Prop :=
  ∃ p ∈ g.productions, p.lhs = A ∧ p.rhs.head? = some X

/-- A chain of nonterminals: the first stands after the dot of one of the items, and a production of each
starts with the next one. -/
structure Grammar.CallChain (g : Grammar) (items : List Item) (chain : List Nat) : Prop where
  nonterminals : ∀ A ∈ chain, g.isNonterminal A = true
  next : ∃ i ∈ items, ∃ A, i.next? g = some A ∧ chain.head? = some A
  links : chain.IsChain g.StartsWith

/-- What the dots of the items of the set call for is in the set. -/
def Grammar.IsClosed (g : Grammar) (set : ItemSet) : Prop :=
  ∀ i ∈ set, ∀ p ∈ g.productions, i.next? g = some p.lhs → .initial p ∈ set

/-- The set is the least closed one that holds the items. -/
structure Grammar.IsClosure (g : Grammar) (items : List Item) (set : ItemSet) : Prop where
  /-- It holds the items, and an initial item at the end of each chain. -/
  mem_iff : ∀ i, i ∈ set ↔ i ∈ items ∨ ∃ p ∈ g.productions, i = .initial p ∧
    ∃ chain, g.CallChain items chain ∧ chain.getLast? = some p.lhs
  closed : g.IsClosed set
  least : ∀ other : ItemSet, (∀ i ∈ items, i ∈ other) → g.IsClosed other → ∀ i ∈ set, i ∈ other

variable {g : Grammar} {I J : List Item} {i : Item}

theorem Production.itemAt_zero_next? {p : Production} (hp : p ∈ g.productions) :
    (Item.initial p).next? g = p.rhs.head? := by
  rw [Item.initial_eq, itemAt_next? hp, List.head?_eq_getElem?]

namespace Grammar.CallChain

theorem single (hi : i ∈ I) {p : Production} (hp : p ∈ g.productions) (h : i.next? g = some p.lhs) :
    g.CallChain I [p.lhs] where
  nonterminals A hA := by
    obtain rfl := List.mem_singleton.mp hA
    exact isNonterminal_lhs hp
  next := ⟨i, hi, p.lhs, h, rfl⟩
  links := .singleton _

theorem concat {chain : List Nat} {A : Nat} (h : g.CallChain I chain)
    (hlast : chain.getLast? = some A) {p : Production} (hp : p ∈ g.productions)
    (hA : g.StartsWith A p.lhs) : g.CallChain I (chain ++ [p.lhs]) where
  nonterminals B hB := by
    rcases List.mem_append.mp hB with hB | hB
    · exact h.nonterminals B hB
    · obtain rfl := List.mem_singleton.mp hB
      exact isNonterminal_lhs hp
  next := by
    obtain ⟨i, hi, B, hnext, hhead⟩ := h.next
    exact ⟨i, hi, B, hnext, by simp [hhead]⟩
  links := by
    rw [List.isChain_append]
    refine ⟨h.links, .singleton _, ?_⟩
    simpa [hlast] using hA

/-- The initial items at the end of a chain are called for. -/
theorem calls {chain : List Nat} (h : g.CallChain I chain) {p : Production} (hp : p ∈ g.productions)
    (hlast : chain.getLast? = some p.lhs) : Calls g I (.initial p) := by
  -- By induction from the back, since a nonterminal is called for by the one before it.
  induction chain using List.reverseRecOn generalizing p with
  | nil => simp at hlast
  | append_singleton chain A ih =>
    obtain rfl : A = p.lhs := by simpa using hlast
    obtain ⟨i, hi, B, hnext, hhead⟩ := h.next
    cases hrest : chain.getLast? with
    | none =>
      obtain rfl := List.getLast?_eq_none_iff.mp hrest
      obtain rfl : p.lhs = B := by simpa using hhead
      exact .predicted (.given hi) (mem_predictions.mpr ⟨p, hp, hnext, rfl⟩)
    | some C =>
      obtain ⟨hlinks, -, hlink⟩ := List.isChain_append.mp h.links
      obtain ⟨q, hq, rfl, hstart⟩ := hlink C hrest p.lhs rfl
      have hbefore : g.CallChain I chain := by
        refine ⟨fun D hD => h.nonterminals D (List.mem_append_left _ hD), ⟨i, hi, B, hnext, ?_⟩, hlinks⟩
        cases chain with
        | nil => simp at hrest
        | cons D chain => simpa using hhead
      have hnext : (Item.initial q).next? g = some p.lhs :=
        (Production.itemAt_zero_next? hq).trans hstart
      exact .predicted (ih hbefore hq hrest) (mem_predictions.mpr ⟨p, hp, hnext, rfl⟩)

end Grammar.CallChain

namespace Calls

theorem iff_chain : Calls g I i ↔ i ∈ I ∨ ∃ p ∈ g.productions, i = .initial p ∧
    ∃ chain, g.CallChain I chain ∧ chain.getLast? = some p.lhs := by
  constructor
  · intro h
    induction h with
    | given h => exact .inl h
    | @predicted i j h hj ih =>
      obtain ⟨p, hp, hnext, rfl⟩ := mem_predictions.mp hj
      refine .inr ⟨p, hp, rfl, ?_⟩
      rcases ih with hi | ⟨q, hq, rfl, chain, hchain, hlast⟩
      · exact ⟨_, .single hi hp hnext, rfl⟩
      · rw [Production.itemAt_zero_next? hq] at hnext
        exact ⟨_, hchain.concat hlast hp ⟨q, hq, rfl, hnext⟩, by simp⟩
  · rintro (h | ⟨p, hp, rfl, chain, hchain, hlast⟩)
    · exact .given h
    · exact hchain.calls hp hlast

/-- What is called for by items that are called for themselves. -/
theorem trans (h : Calls g I i) (hI : ∀ j ∈ I, Calls g J j) : Calls g J i := by
  induction h with
  | given h => exact hI _ h
  | predicted _ hj ih => exact .predicted ih hj

theorem mono (h : Calls g I i) (hI : I ⊆ J) : Calls g J i := h.trans fun _ hj => .given (hI hj)

/-- Each call goes back to a single one of the given items. -/
theorem append_iff : Calls g (I ++ J) i ↔ Calls g I i ∨ Calls g J i := by
  constructor
  · intro h
    induction h with
    | given h => exact (List.mem_append.mp h).imp .given .given
    | predicted _ hj ih => exact ih.imp (.predicted · hj) (.predicted · hj)
  · rintro (h | h)
    · exact h.mono (List.subset_append_left I J)
    · exact h.mono (List.subset_append_right I J)

end Calls

theorem closure_isClosure (g : Grammar) (I : List Item) : g.IsClosure I (closure g I) where
  mem_iff _ := mem_closure.trans Calls.iff_chain
  closed i hi p hp hnext :=
    mem_closure.mpr (.predicted (mem_closure.mp hi) (mem_predictions.mpr ⟨p, hp, hnext, rfl⟩))
  least other hI hclosed i hi := by
    induction mem_closure.mp hi with
    | given h => exact hI _ h
    | predicted h hj ih =>
      obtain ⟨p, hp, hnext, rfl⟩ := mem_predictions.mp hj
      exact hclosed _ (ih (mem_closure.mpr h)) p hp hnext

theorem closure_mono (h : I ⊆ J) (hi : i ∈ closure g I) : i ∈ closure g J :=
  mem_closure.mpr ((mem_closure.mp hi).mono h)

theorem closure_closure (g : Grammar) (I : List Item) :
    closure g (closure g I).toList = closure g I := by
  ext i
  rw [mem_closure]
  constructor
  · intro h
    exact mem_closure.mpr (h.trans fun j hj => mem_closure.mp hj)
  · exact .given

theorem closure_append (g : Grammar) (I J : List Item) :
    closure g (I ++ J) = closure g I ∪ closure g J := by
  ext i
  simp [mem_closure, Calls.append_iff]

/-- A closure depends on nothing but which items are given. -/
theorem closure_congr (h : ∀ i, i ∈ I ↔ i ∈ J) : closure g I = closure g J := by
  ext i
  exact ⟨closure_mono fun j hj => (h j).mp hj, closure_mono fun j hj => (h j).mpr hj⟩

theorem goto_union (g : Grammar) (s t : ItemSet) (X : Nat) :
    goto g (s ∪ t) X = goto g s X ∪ goto g t X := by
  rw [goto, goto, goto, ← closure_append]
  apply closure_congr
  intro j
  simp only [List.mem_append, mem_movesOn, OrdSet.mem_union, or_and_right, exists_or]

namespace Grammar

theorem hasAll_iff : g.hasAll I = true ↔ ∀ i ∈ I, (g.production? i.production).isSome = true :=
  List.all_eq_true

theorem hasAll_append (hI : g.hasAll I = true) (hJ : g.hasAll J = true) :
    g.hasAll (I ++ J) = true := by
  rw [hasAll, List.all_append]
  exact Bool.and_eq_true_iff.mpr ⟨hI, hJ⟩

/-- A closure takes in items of the grammar only. -/
theorem hasAll_closure (hI : g.hasAll I = true) : g.hasAll (closure g I).toList = true := by
  apply hasAll_iff.mpr
  intro i hi
  rcases ((closure_isClosure g I).mem_iff i).mp hi with hi | ⟨p, hp, rfl, -⟩
  · exact hasAll_iff.mp hI i hi
  · simp [Item.initial, production?_id hp]

theorem hasAll_ofList (hI : g.hasAll I = true) : g.hasAll (OrdSet.ofList I).toList = true :=
  hasAll_iff.mpr fun i hi => hasAll_iff.mp hI i (OrdSet.mem_ofList.mp hi)

end Grammar

/-- The closure of items whose productions the grammar has is the least closed set that holds them. Closing
is idempotent and monotone, and it can be done part by part, as can a goto. -/
theorem closure_least_distributes (g : Grammar) {I J : List Item} (hI : g.hasAll I = true)
    (hJ : g.hasAll J = true) (X : Nat) :
    ∃ cI cJ gI gJ, closure? g I = some cI ∧ closure? g J = some cJ ∧
      goto? g (.ofList I) X = some gI ∧ goto? g (.ofList J) X = some gJ ∧
      g.IsClosure I cI ∧
      closure? g cI.toList = some cI ∧
      (I ⊆ J → ∀ i ∈ cI, i ∈ cJ) ∧
      closure? g (I ++ J) = some (cI ∪ cJ) ∧
      goto? g (.ofList I ∪ .ofList J) X = some (gI ∪ gJ) := by
  have hunion : g.hasAll (OrdSet.ofList I ∪ .ofList J).toList = true := by
    apply Grammar.hasAll_iff.mpr
    intro i hi
    rw [← OrdSet.mem_iff] at hi
    apply Grammar.hasAll_iff.mp (Grammar.hasAll_append hI hJ)
    simpa using hi
  refine ⟨closure g I, closure g J, goto g (.ofList I) X, goto g (.ofList J) X, if_pos hI, if_pos hJ,
    if_pos (Grammar.hasAll_ofList hI), if_pos (Grammar.hasAll_ofList hJ), closure_isClosure g I, ?_,
    fun h i => closure_mono h, ?_, ?_⟩
  · rw [closure?, if_pos (Grammar.hasAll_closure hI), closure_closure]
  · rw [closure?, if_pos (Grammar.hasAll_append hI hJ), closure_append]
  · rw [goto?, if_pos hunion, goto_union]

/-- Items of the grammar `S → a S b | ε`, `U → a U`, one of them twice, with a dot past the end and with
left sides that are not those of their productions. The dot of `U → a . U` calls for `U → . a U`, and so does
the dot that has been moved on `a` in `U → . a U`. -/
theorem closure_least_distributes_balanced :
    Grammar.balanced.hasAll [⟨1, 9, 7⟩, ⟨3, 1, 5⟩, ⟨1, 9, 7⟩, ⟨3, 0, 5⟩] = true ∧
      Grammar.balanced.hasAll [⟨0, 0, 2⟩, ⟨1, 0, 0⟩] = true ∧
      ∃ cI cJ gI gJ,
        closure? .balanced [⟨1, 9, 7⟩, ⟨3, 1, 5⟩, ⟨1, 9, 7⟩, ⟨3, 0, 5⟩] = some cI ∧
        closure? .balanced [⟨0, 0, 2⟩, ⟨1, 0, 0⟩] = some cJ ∧ ⟨3, 0, 1⟩ ∈ cI ∧
        closure? .balanced [⟨1, 9, 7⟩, ⟨3, 1, 5⟩, ⟨1, 9, 7⟩, ⟨3, 0, 5⟩, ⟨0, 0, 2⟩, ⟨1, 0, 0⟩] =
          some (cI ∪ cJ) ∧
        goto? .balanced (.ofList [⟨1, 9, 7⟩, ⟨3, 1, 5⟩, ⟨1, 9, 7⟩, ⟨3, 0, 5⟩]) 3 = some gI ∧
        goto? .balanced (.ofList [⟨0, 0, 2⟩, ⟨1, 0, 0⟩]) 3 = some gJ ∧
        gI.toList = [⟨3, 0, 1⟩, ⟨3, 1, 5⟩] ∧ gJ.toList = [⟨1, 0, 0⟩, ⟨1, 1, 0⟩, ⟨2, 0, 0⟩] ∧
        goto? .balanced (.ofList [⟨1, 9, 7⟩, ⟨3, 1, 5⟩, ⟨1, 9, 7⟩, ⟨3, 0, 5⟩] ∪
          .ofList [⟨0, 0, 2⟩, ⟨1, 0, 0⟩]) 3 = some (gI ∪ gJ) := by
  have hI : Grammar.balanced.hasAll [⟨1, 9, 7⟩, ⟨3, 1, 5⟩, ⟨1, 9, 7⟩, ⟨3, 0, 5⟩] = true := by decide
  have hJ : Grammar.balanced.hasAll [⟨0, 0, 2⟩, ⟨1, 0, 0⟩] = true := by decide
  obtain ⟨cI, cJ, gI, gJ, hcI, hcJ, hgI, hgJ, hclosure, -, -, happend, hgoto⟩ :=
    closure_least_distributes .balanced hI hJ 3
  have hchain : Grammar.balanced.CallChain [⟨1, 9, 7⟩, ⟨3, 1, 5⟩, ⟨1, 9, 7⟩, ⟨3, 0, 5⟩] [1] :=
    ⟨by decide, ⟨⟨3, 1, 5⟩, by decide, 1, rfl, rfl⟩, .singleton _⟩
  have hmem := (hclosure.mem_iff ⟨3, 0, 1⟩).mpr
    (.inr ⟨⟨3, 1, [3, 1], []⟩, by decide, rfl, [1], hchain, rfl⟩)
  have hmovedI : (goto? .balanced (.ofList [⟨1, 9, 7⟩, ⟨3, 1, 5⟩, ⟨1, 9, 7⟩, ⟨3, 0, 5⟩]) 3).map
      OrdSet.toList = some [⟨3, 0, 1⟩, ⟨3, 1, 5⟩] := by
    decide +kernel
  have hmovedJ : (goto? .balanced (.ofList [⟨0, 0, 2⟩, ⟨1, 0, 0⟩]) 3).map OrdSet.toList =
      some [⟨1, 0, 0⟩, ⟨1, 1, 0⟩, ⟨2, 0, 0⟩] := by
    decide +kernel
  rw [hgI] at hmovedI
  rw [hgJ] at hmovedJ
  exact ⟨hI, hJ, cI, cJ, gI, gJ, hcI, hcJ, hmem, happend, hgI, hgJ, Option.some.inj hmovedI,
    Option.some.inj hmovedJ, hgoto⟩

end SimpleLR
