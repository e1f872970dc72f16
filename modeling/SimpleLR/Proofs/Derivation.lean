import SimpleLR.Grammar.Basic
import Mathlib.Logic.Relation
import Mathlib.Tactic.Common

/-!
# Derivations

A string of symbols derives another when nonterminals in it are replaced by right sides of their
productions. A rightmost derivation always replaces the last nonterminal and is known by the ids of
its productions. A parse lists the same productions in the order in which their right sides are
completed from left to right, which is that of a rightmost derivation read backwards.
-/
namespace SimpleLR.Grammar

variable (g : Grammar)

/-- A string of terminals of the grammar. -/
def IsTerminalString (w : List Nat) : Prop := ∀ c ∈ w, c ∈ g.terminals

/-- One nonterminal of a string is replaced by the right side of one of its productions. -/
def Step (u v : List Nat) : Prop :=
  ∃ p ∈ g.productions, ∃ a b, u = a ++ p.lhs :: b ∧ v = a ++ p.rhs ++ b

/-- Any number of nonterminals are replaced, in any order. -/
def Derives : List Nat → List Nat → Prop := Relation.ReflTransGen g.Step

/-- The rightmost nonterminal is replaced again and again, by the productions with the given ids. -/
inductive RightmostBy : List Nat → List Nat → List Nat → Prop
  | refl (u : List Nat) : RightmostBy u [] u
  | step {p : Production} {a b ids v : List Nat} (hp : p ∈ g.productions)
      (hb : ∀ c ∈ b, g.isNonterminal c = false) (h : RightmostBy (a ++ p.rhs ++ b) ids v) :
      RightmostBy (a ++ p.lhs :: b) (p.id :: ids) v

/-- A string of terminals that the start symbol derives. -/
def IsSentence (w : List Nat) : Prop := g.IsTerminalString w ∧ g.Derives [g.start] w

/-- A string of symbols is parsed into a terminal string; a production is listed when all of its right
side has been parsed. -/
inductive Yields : List Nat → List Nat → List Nat → Prop
  | nil : Yields [] [] []
  | terminal {c : Nat} {u r w : List Nat} (hc : c ∈ g.terminals) (h : Yields u r w) :
      Yields (c :: u) r (c :: w)
  | node {p : Production} {u r s v w : List Nat} (hp : p ∈ g.productions) (hr : Yields p.rhs r v)
      (h : Yields u s w) : Yields (p.lhs :: u) (r ++ p.id :: s) (v ++ w)

/-- A nonterminal that the start symbol leads to. -/
def Reachable (nonterminal : Nat) : Prop := ∃ a b, g.Derives [g.start] (a ++ nonterminal :: b)

/-- A nonterminal that derives a terminal string. -/
def Productive (nonterminal : Nat) : Prop :=
  ∃ w, g.IsTerminalString w ∧ g.Derives [nonterminal] w

variable {g}

theorem mem_terminals {c : Nat} :
    c ∈ g.terminals ↔ g.nonterminalCount ≤ c ∧ c < g.symbolCount := by
  have : g.nonterminalCount ≤ g.symbolCount := augmentedStart_lt_symbolCount
  simp only [terminals, terminalCount, List.mem_range'_1]
  omega

theorem isNonterminal_of_mem_terminals {c : Nat} (h : c ∈ g.terminals) :
    g.isNonterminal c = false := by
  have := (mem_terminals.mp h).1
  simp [isNonterminal]
  omega

theorem isTerminal_of_mem_terminals {c : Nat} (h : c ∈ g.terminals) : g.isTerminal c = true := by
  simpa [isTerminal] using (mem_terminals.mp h).1

theorem not_isTerminal_lhs {p : Production} (hp : p ∈ g.productions) :
    g.isTerminal p.lhs = false := by
  simpa [isTerminal] using lhs_lt hp

theorem isNonterminal_lhs {p : Production} (hp : p ∈ g.productions) :
    g.isNonterminal p.lhs = true := by
  simpa [isNonterminal] using lhs_lt hp

@[simp] theorem isTerminalString_nil : g.IsTerminalString [] := fun _ h => absurd h List.not_mem_nil

@[simp] theorem isTerminalString_cons {c : Nat} {w : List Nat} :
    g.IsTerminalString (c :: w) ↔ c ∈ g.terminals ∧ g.IsTerminalString w := by
  simp [IsTerminalString]

@[simp] theorem isTerminalString_append {v w : List Nat} :
    g.IsTerminalString (v ++ w) ↔ g.IsTerminalString v ∧ g.IsTerminalString w := by
  simp [IsTerminalString, or_imp, forall_and]

namespace Derives

variable {u v w : List Nat}

theorem append_left (a : List Nat) (h : g.Derives u v) : g.Derives (a ++ u) (a ++ v) := by
  induction h with
  | refl => exact .refl
  | tail _ hstep ih =>
    obtain ⟨p, hp, c, d, rfl, rfl⟩ := hstep
    exact ih.tail ⟨p, hp, a ++ c, d, by simp, by simp⟩

theorem append_right (b : List Nat) (h : g.Derives u v) : g.Derives (u ++ b) (v ++ b) := by
  induction h with
  | refl => exact .refl
  | tail _ hstep ih =>
    obtain ⟨p, hp, c, d, rfl, rfl⟩ := hstep
    exact ih.tail ⟨p, hp, c, d ++ b, by simp, by simp⟩

/-- A part of a string is derived from while the rest of it stays. -/
theorem within (a b : List Nat) (h : g.Derives u v) : g.Derives (a ++ u ++ b) (a ++ v ++ b) :=
  (h.append_left a).append_right b

theorem trans (h : g.Derives u v) (h' : g.Derives v w) : g.Derives u w :=
  Relation.ReflTransGen.trans h h'

theorem of_production {p : Production} (hp : p ∈ g.productions) : g.Derives [p.lhs] p.rhs :=
  .single ⟨p, hp, [], [], rfl, by simp⟩

/-- What the right sides take over from their left sides holds of all symbols derived. -/
theorem forall_mem {P : Nat → Prop} (hP : ∀ p ∈ g.productions, P p.lhs → ∀ c ∈ p.rhs, P c)
    (h : g.Derives u v) (hu : ∀ c ∈ u, P c) : ∀ c ∈ v, P c := by
  induction h with
  | refl => exact hu
  | tail _ hstep ih =>
    obtain ⟨p, hp, a, b, rfl, rfl⟩ := hstep
    simp only [List.forall_mem_append, List.forall_mem_cons] at ih ⊢
    exact ⟨⟨ih.1, hP p hp ih.2.1⟩, ih.2.2⟩

/-- What one symbol of each right side takes over from its left side holds of some symbol derived. -/
theorem exists_mem {P : Nat → Prop} (hP : ∀ p ∈ g.productions, P p.lhs → ∃ c ∈ p.rhs, P c)
    (h : g.Derives u v) (hu : ∃ c ∈ u, P c) : ∃ c ∈ v, P c := by
  induction h with
  | refl => exact hu
  | tail _ hstep ih =>
    obtain ⟨p, hp, a, b, rfl, rfl⟩ := hstep
    obtain ⟨c, hc, hcP⟩ := ih
    rcases List.mem_append.mp hc with ha | hc
    · exact ⟨c, by simp [ha], hcP⟩
    rcases List.mem_cons.mp hc with rfl | hb
    · obtain ⟨d, hd, hdP⟩ := hP p hp hcP
      exact ⟨d, by simp [hd], hdP⟩
    · exact ⟨c, by simp [hb], hcP⟩

/-- A string comes to nothing if each of its symbols does. -/
theorem nil_of_forall (h : ∀ c ∈ u, g.Derives [c] []) : g.Derives u [] := by
  induction u with
  | nil => exact .refl
  | cons c u ih =>
    have hc := (h c List.mem_cons_self).append_right u
    exact hc.trans (ih fun d hd => h d (List.mem_cons_of_mem c hd))

end Derives

namespace Yields

theorem isTerminalString {u r w : List Nat} (h : g.Yields u r w) : g.IsTerminalString w := by
  induction h with
  | nil => exact isTerminalString_nil
  | terminal hc _ ih => exact isTerminalString_cons.mpr ⟨hc, ih⟩
  | node _ _ _ ihr ih => exact isTerminalString_append.mpr ⟨ihr, ih⟩

theorem of_isTerminalString {w : List Nat} (h : g.IsTerminalString w) : g.Yields w [] w := by
  induction w with
  | nil => exact .nil
  | cons c w ih =>
    obtain ⟨hc, hw⟩ := isTerminalString_cons.mp h
    exact .terminal hc (ih hw)

/-- A string without nonterminals is parsed into itself, without any production. -/
theorem eq_of_no_nonterminal {u r w : List Nat} (h : g.Yields u r w)
    (hu : ∀ c ∈ u, g.isNonterminal c = false) : r = [] ∧ w = u := by
  induction h with
  | nil => exact ⟨rfl, rfl⟩
  | terminal hc _ ih =>
    obtain ⟨rfl, rfl⟩ := ih fun c hc => hu c (List.mem_cons_of_mem _ hc)
    exact ⟨rfl, rfl⟩
  | node hp _ _ _ _ =>
    have := hu _ List.mem_cons_self
    rw [isNonterminal_lhs hp] at this
    contradiction

theorem append {u v r s x y : List Nat} (hu : g.Yields u r x) (hv : g.Yields v s y) :
    g.Yields (u ++ v) (r ++ s) (x ++ y) := by
  induction hu with
  | nil => exact hv
  | terminal hc _ ih => exact .terminal hc ih
  | node hp hr _ _ ih =>
    simp only [List.cons_append, List.append_assoc]
    exact .node hp hr ih

/-- A parse of two strings in a row is a parse of the first and then one of the second. -/
theorem split {u v r w : List Nat} (h : g.Yields (u ++ v) r w) :
    ∃ r₁ r₂ w₁ w₂, r = r₁ ++ r₂ ∧ w = w₁ ++ w₂ ∧ g.Yields u r₁ w₁ ∧ g.Yields v r₂ w₂ := by
  induction u generalizing r w with
  | nil => exact ⟨[], r, [], w, rfl, rfl, .nil, h⟩
  | cons c u ih =>
    cases h with
    | terminal hc h =>
      obtain ⟨r₁, r₂, w₁, w₂, rfl, rfl, h₁, h₂⟩ := ih h
      exact ⟨r₁, r₂, c :: w₁, w₂, rfl, rfl, .terminal hc h₁, h₂⟩
    | node hp hr h =>
      obtain ⟨r₁, r₂, w₁, w₂, rfl, rfl, h₁, h₂⟩ := ih h
      exact ⟨_, r₂, _, w₂, by simp, by simp, .node hp hr h₁, h₂⟩

/-- The production is listed after those of its right side. -/
theorem single {p : Production} {r w : List Nat} (hp : p ∈ g.productions) (h : g.Yields p.rhs r w) :
    g.Yields [p.lhs] (r ++ [p.id]) w := by
  simpa using Yields.node hp h .nil

/-- A step backwards completes one more production. -/
theorem of_step {p : Production} {a b r w : List Nat} (hp : p ∈ g.productions)
    (h : g.Yields (a ++ p.rhs ++ b) r w) : ∃ r₁ r₂, r = r₁ ++ r₂ ∧
      g.Yields (a ++ p.lhs :: b) (r₁ ++ p.id :: r₂) w ∧ ∃ v, g.Yields b r₂ v := by
  obtain ⟨r₁, r₂, w₁, w₂, rfl, rfl, h₁, hb⟩ := h.split
  obtain ⟨ra, rp, wa, wp, rfl, rfl, ha, hp'⟩ := h₁.split
  have hlhs := ha.append (.node hp hp' hb)
  exact ⟨ra ++ rp, r₂, rfl, by simpa using hlhs, w₂, hb⟩

theorem of_derives {u w : List Nat} (hw : g.IsTerminalString w) (h : g.Derives u w) :
    ∃ r, g.Yields u r w := by
  induction h using Relation.ReflTransGen.head_induction_on with
  | refl => exact ⟨[], of_isTerminalString hw⟩
  | head hstep _ ih =>
    obtain ⟨p, hp, a, b, rfl, rfl⟩ := hstep
    obtain ⟨r, hr⟩ := ih
    obtain ⟨r₁, r₂, _, h, _⟩ := of_step hp hr
    exact ⟨r₁ ++ p.id :: r₂, h⟩

/-- A rightmost derivation of a terminal string, read backwards, is a parse. -/
theorem of_rightmostBy {u ids w : List Nat} (hw : g.IsTerminalString w)
    (h : g.RightmostBy u ids w) : g.Yields u ids.reverse w := by
  induction h with
  | refl => exact of_isTerminalString hw
  | step hp hb _ ih =>
    obtain ⟨r₁, r₂, hr, h, v, hv⟩ := of_step hp (ih hw)
    obtain ⟨rfl, -⟩ := hv.eq_of_no_nonterminal hb
    rw [List.append_nil] at hr
    rwa [List.reverse_cons, hr]

end Yields

namespace RightmostBy

theorem trans {u v w ids ids' : List Nat} (h : g.RightmostBy u ids v)
    (h' : g.RightmostBy v ids' w) : g.RightmostBy u (ids ++ ids') w := by
  induction h with
  | refl => exact h'
  | step hp hb _ ih => exact .step hp hb (ih h')

theorem append_left {u v ids : List Nat} (a : List Nat) (h : g.RightmostBy u ids v) :
    g.RightmostBy (a ++ u) ids (a ++ v) := by
  induction h with
  | refl => exact .refl _
  | @step p c b ids v hp hb _ ih =>
    rw [← List.append_assoc]
    apply RightmostBy.step hp hb
    simpa using ih

theorem append_right {u v b ids : List Nat} (hb : ∀ c ∈ b, g.isNonterminal c = false)
    (h : g.RightmostBy u ids v) : g.RightmostBy (u ++ b) ids (v ++ b) := by
  induction h with
  | refl => exact .refl _
  | @step p a b' ids v hp hb' _ ih =>
    rw [List.append_assoc, List.cons_append]
    have hbehind : ∀ c ∈ b' ++ b, g.isNonterminal c = false := by
      intro c hc
      rcases List.mem_append.mp hc with hc | hc
      · exact hb' c hc
      · exact hb c hc
    apply RightmostBy.step hp hbehind
    simpa using ih

end RightmostBy

/-- A parse, read backwards, is a rightmost derivation. -/
theorem Yields.rightmostBy {u r w : List Nat} (h : g.Yields u r w) :
    g.RightmostBy u r.reverse w := by
  induction h with
  | nil => exact .refl _
  | @terminal c u r w _ _ ih => exact ih.append_left [c]
  | @node p u r s v w hp _ h ihr ih =>
    have hw : ∀ c ∈ w, g.isNonterminal c = false := fun c hc =>
      isNonterminal_of_mem_terminals (h.isTerminalString c hc)
    have hrest : g.RightmostBy (p.lhs :: u) s.reverse (p.lhs :: w) := ih.append_left [p.lhs]
    have hnode : g.RightmostBy (p.lhs :: w) (p.id :: r.reverse) (v ++ w) :=
      RightmostBy.step (a := []) hp hw (ihr.append_right hw)
    simpa using hrest.trans hnode

theorem RightmostBy.derives {u ids v : List Nat} (h : g.RightmostBy u ids v) : g.Derives u v := by
  induction h with
  | refl => exact .refl
  | @step p a b ids v hp _ _ ih => exact .head ⟨p, hp, a, b, rfl, rfl⟩ ih

theorem derives_iff_yields {u w : List Nat} (hw : g.IsTerminalString w) :
    g.Derives u w ↔ ∃ r, g.Yields u r w :=
  ⟨Yields.of_derives hw, fun ⟨_, h⟩ => h.rightmostBy.derives⟩

theorem isSentence_iff_yields {w : List Nat} : g.IsSentence w ↔ ∃ r, g.Yields [g.start] r w := by
  constructor
  · rintro ⟨hw, hd⟩
    exact Yields.of_derives hw hd
  · rintro ⟨r, hr⟩
    exact ⟨hr.isTerminalString, hr.rightmostBy.derives⟩

/-- What the start symbol derives consists of symbols of the grammar. -/
theorem lt_symbolCount_of_derives {u : List Nat} (h : g.Derives [g.start] u) :
    ∀ c ∈ u, c < g.symbolCount := by
  apply h.forall_mem (P := (· < g.symbolCount))
  · exact fun p hp _ c hc => (rhs_lt hp hc).1
  · exact List.forall_mem_singleton.mpr start_lt_symbolCount

/-- Where all reachable nonterminals are productive, what the start symbol derives can be parsed. -/
theorem exists_yields (hg : ∀ c, g.isNonterminal c = true → g.Reachable c → g.Productive c)
    {u : List Nat} (h : g.Derives [g.start] u) : ∃ r w, g.Yields u r w := by
  have hsymbol : ∀ c ∈ u, ∃ r w, g.Yields [c] r w := by
    intro c hc
    by_cases hn : g.isNonterminal c = true
    · obtain ⟨a, b, rfl⟩ := List.append_of_mem hc
      obtain ⟨w, hw, hd⟩ := hg c hn ⟨a, b, h⟩
      obtain ⟨r, hr⟩ := Yields.of_derives hw hd
      exact ⟨r, w, hr⟩
    · have hlt := lt_symbolCount_of_derives h c hc
      simp only [isNonterminal, decide_eq_true_eq, Nat.not_lt] at hn
      exact ⟨[], [c], .terminal (mem_terminals.mpr ⟨hn, hlt⟩) .nil⟩
  clear h
  induction u with
  | nil => exact ⟨[], [], .nil⟩
  | cons c u ih =>
    obtain ⟨r, w, hr⟩ := hsymbol c List.mem_cons_self
    obtain ⟨s, v, hs⟩ := ih fun c hc => hsymbol c (List.mem_cons_of_mem _ hc)
    exact ⟨r ++ s, w ++ v, hr.append hs⟩

/-- The grammar `S → a S b | ε` with a useless rule `U → a U` beside it. The codes are 0 for `S`, 1 for
`U`, 3 for `a` and 4 for `b`. -/
def balanced : Grammar where
  name := "balanced"
  package := ""
  symbols := [⟨"S", []⟩, ⟨"U", []⟩, .augmentedStart, ⟨"a", []⟩, ⟨"b", []⟩]
  augmentedStart := 2
  start := 0
  rules := [⟨1, 0, [3, 0, 4], []⟩, ⟨2, 0, [], []⟩, ⟨3, 1, [3, 1], []⟩]
  start_lt := by decide
  symbols_augmentedStart := rfl
  names_nodup := by decide
  rules_ids := rfl
  rules_sides := by decide

theorem balanced_derives_nil : balanced.Derives [0] [] :=
  .single ⟨⟨2, 0, [], []⟩, by decide, [], [], rfl, rfl⟩

theorem balanced_not_reachable : ¬balanced.Reachable 1 := by
  rintro ⟨a, b, h⟩
  have hne : ∀ c ∈ a ++ 1 :: b, c ≠ 1 := h.forall_mem (by decide) (by decide)
  exact hne 1 (by simp) rfl

theorem balanced_productive (c : Nat) (hc : balanced.isNonterminal c = true)
    (hreach : balanced.Reachable c) : balanced.Productive c := by
  have hc : c < 3 := of_decide_eq_true hc
  obtain rfl | rfl | rfl : c = 0 ∨ c = 1 ∨ c = 2 := by omega
  · exact ⟨[], isTerminalString_nil, balanced_derives_nil⟩
  · exact absurd hreach balanced_not_reachable
  · have hstep : balanced.Step [2] [0] :=
      ⟨balanced.startProduction, List.mem_cons_self, [], [], rfl, rfl⟩
    exact ⟨[], isTerminalString_nil, .head hstep balanced_derives_nil⟩

end SimpleLR.Grammar
