import SimpleLR.Proofs.Facts.Least

/-!
# Facts are exact

What the nonterminals of a grammar derive is a model of the rules of all its productions, and it is
included in every other model. So is what sweeping finds, which therefore says exactly what can be
derived.
-/
namespace SimpleLR

variable {g : Grammar}

/-- An element of two lists in a row stands in the first or in the second of them. -/
theorem exists_of_append_cons_eq {α : Type} {u v a b : List α} {x : α} (h : u ++ x :: v = a ++ b) :
    (∃ a', a = u ++ x :: a' ∧ v = a' ++ b) ∨ ∃ b', u = a ++ b' ∧ b = b' ++ x :: v := by
  rcases List.append_eq_append_iff.mp h with ⟨a', rfl, ha'⟩ | ⟨b', rfl, rfl⟩
  · rcases List.cons_eq_append_iff.mp ha' with ⟨rfl, rfl⟩ | ⟨a'', rfl, rfl⟩
    · exact .inr ⟨[], by simp, rfl⟩
    · exact .inl ⟨a'', rfl, rfl⟩
  · exact .inr ⟨b', rfl, rfl⟩

namespace Facts

/-- What the facts are about: the strings of symbols that nonterminals derive. -/
def derivability (g : Grammar) : Interpretation where
  IsNullable A := g.Derives [A] []
  BeginsWith A x := g.isNonterminal A = true ∧ x ∈ g.terminals ∧ ∃ v, g.Derives [A] (x :: v)
  FollowedBy A
    | .terminal t => g.isNonterminal A = true ∧ t ∈ g.terminals ∧
      ∃ B, g.isNonterminal B = true ∧ ∃ u v, g.Derives [B] (u ++ A :: t :: v)
    | .endOfInput => g.isNonterminal A = true ∧ ∃ u, g.Derives [g.augmentedStart] (u ++ [A])

section Sound

variable {u : List Nat} {x : Nat}

/-- A string of symbols derives one that begins with the terminal it can begin with. -/
theorem derives_of_begins (hu : ∀ c ∈ u, c < g.symbolCount)
    (h : First.Begins g (derivability g).IsNullable (derivability g).BeginsWith u x) :
    x ∈ g.terminals ∧ ∃ v, g.Derives u (x :: v) := by
  induction h with
  | @terminal c u hc =>
    have hle : g.nonterminalCount ≤ c := by simpa [Grammar.isTerminal] using hc
    exact ⟨Grammar.mem_terminals.mpr ⟨hle, hu c List.mem_cons_self⟩, u, .refl⟩
  | @nonterminal c x u _ hx =>
    obtain ⟨-, hterminal, v, hv⟩ := hx
    exact ⟨hterminal, v ++ u, hv.append_right u⟩
  | @skip c x u _ hn _ ih =>
    obtain ⟨hterminal, v, hv⟩ := ih fun d hd => hu d (List.mem_cons_of_mem c hd)
    exact ⟨hterminal, v, (hn.append_right u).trans hv⟩

/-- What comes after a nonterminal comes after whatever it can end in. -/
theorem followedBy_of_ends {A B : Nat} (hA : g.isNonterminal A = true)
    (hend : g.Derives [B] (u ++ [A])) {la : Lookahead} (h : (derivability g).FollowedBy B la) :
    (derivability g).FollowedBy A la := by
  cases la with
  | terminal t =>
    obtain ⟨-, ht, C, hC, u', v', h⟩ := h
    have hA' : g.Derives (u' ++ B :: t :: v') ((u' ++ u) ++ A :: t :: v') := by
      simpa using hend.within u' (t :: v')
    exact ⟨hA, ht, C, hC, u' ++ u, v', h.trans hA'⟩
  | endOfInput =>
    obtain ⟨-, u', h⟩ := h
    have hA' : g.Derives (u' ++ [B]) ((u' ++ u) ++ [A]) := by
      simpa using hend.append_left u'
    exact ⟨hA, u' ++ u, h.trans hA'⟩

/-- Derivability obeys the rules. -/
theorem derivability_models (g : Grammar) : (derivability g).Models g g.productions where
  nullable p hp h := (Grammar.Derives.of_production hp).trans (Grammar.Derives.nil_of_forall h)
  first p hp x h := by
    obtain ⟨hx, v, hv⟩ := derives_of_begins (fun c hc => (Grammar.rhs_lt hp hc).1) h
    exact ⟨Grammar.isNonterminal_lhs hp, hx, v, (Grammar.Derives.of_production hp).trans hv⟩
  follow p hp u A v hrhs hA la h := by
    have hlhs : g.Derives [p.lhs] (u ++ A :: v) := hrhs ▸ Grammar.Derives.of_production hp
    have hv : ∀ c ∈ v, c < g.symbolCount := fun c hc =>
      (Grammar.rhs_lt hp (by simp [hrhs, hc])).1
    cases h with
    | @begins t h =>
      obtain ⟨ht, w, hw⟩ := derives_of_begins hv h
      have hbehind : g.Derives (u ++ A :: v) (u ++ A :: t :: w) := by
        simpa using hw.append_left (u ++ [A])
      exact ⟨hA, ht, p.lhs, Grammar.isNonterminal_lhs hp, u, w, hlhs.trans hbehind⟩
    | passes hn h =>
      have hgone : g.Derives (u ++ A :: v) (u ++ [A]) := by
        simpa using (Grammar.Derives.nil_of_forall hn).append_left (u ++ [A])
      exact followedBy_of_ends hA (hlhs.trans hgone) h
  last := by
    have hstart : g.isNonterminal g.augmentedStart = true := by
      simp [Grammar.isNonterminal, Grammar.nonterminalCount]
    exact ⟨hstart, [], .refl⟩

end Sound

section Complete

variable {I : Interpretation} (hI : I.Models g g.productions)

include hI

/-- Backwards through a derivation, a string stays nullable. -/
theorem nullable_of_derives {u w : List Nat} (h : g.Derives u w) (hw : ∀ c ∈ w, I.IsNullable c) :
    ∀ c ∈ u, I.IsNullable c := by
  induction h using Relation.ReflTransGen.head_induction_on with
  | refl => exact hw
  | head hstep _ ih =>
    obtain ⟨p, hp, a, b, rfl, rfl⟩ := hstep
    simp only [List.forall_mem_append, List.forall_mem_cons] at ih ⊢
    exact ⟨ih.1.1, hI.nullable p hp ih.1.2, ih.2⟩

/-- Backwards through a step, a string can still begin with a terminal. -/
theorem begins_of_step {u w : List Nat} {x : Nat} (hstep : g.Step u w)
    (h : First.Begins g I.IsNullable I.BeginsWith w x) :
    First.Begins g I.IsNullable I.BeginsWith u x := by
  obtain ⟨p, hp, a, b, rfl, rfl⟩ := hstep
  rw [List.append_assoc] at h
  refine First.Begins.append_left (fun x h => ?_) a h
  have hlhs := Grammar.not_isTerminal_lhs hp
  rcases h.of_append with h | ⟨hn, h⟩
  · exact .nonterminal hlhs (hI.first p hp x h)
  · exact .skip hlhs (hI.nullable p hp hn) h

theorem begins_of_derives {u w : List Nat} {x : Nat} (h : g.Derives u w)
    (hw : First.Begins g I.IsNullable I.BeginsWith w x) :
    First.Begins g I.IsNullable I.BeginsWith u x := by
  induction h using Relation.ReflTransGen.head_induction_on with
  | refl => exact hw
  | head hstep _ ih => exact begins_of_step hI hstep ih

theorem comes_of_step {B : Nat} {u w : List Nat} {la : Lookahead} (hstep : g.Step u w)
    (h : Follow.Comes g I.IsNullable I.BeginsWith I.FollowedBy B w la) :
    Follow.Comes g I.IsNullable I.BeginsWith I.FollowedBy B u la := by
  cases h with
  | begins h => exact .begins (begins_of_step hI hstep h)
  | passes hn h => exact .passes (nullable_of_derives hI (.single hstep) hn) h

/-- What can come after a nonterminal in a derived string can come after the nonterminal, as it can in a
production. -/
theorem followedBy_of_derives {A B : Nat} {u v : List Nat} (h : g.Derives [B] (u ++ A :: v))
    (hA : g.isNonterminal A = true) {la : Lookahead}
    (hla : Follow.Comes g I.IsNullable I.BeginsWith I.FollowedBy B v la) : I.FollowedBy A la := by
  generalize hw : u ++ A :: v = w at h
  induction h generalizing u A v la with
  | refl =>
    obtain ⟨rfl, hAv⟩ | ⟨-, hno⟩ := List.append_eq_singleton_iff.mp hw
    · obtain ⟨rfl, rfl⟩ := List.cons.inj hAv
      cases hla with
      | begins h => exact absurd h First.not_begins_nil
      | passes _ h => exact h
    · contradiction
  | tail _ hstep ih =>
    -- The nonterminal stands before, in, or behind the right side that the step has put there.
    obtain ⟨p, hp, a, b, rfl, rfl⟩ := hstep
    rw [List.append_assoc] at hw
    rcases exists_of_append_cons_eq hw with ⟨a', rfl, rfl⟩ | ⟨w', rfl, hbehind⟩
    · have hstep' : g.Step (a' ++ p.lhs :: b) (a' ++ (p.rhs ++ b)) :=
        ⟨p, hp, a', b, rfl, by simp⟩
      exact ih (u := u) hA (comes_of_step hI hstep' hla) (by simp)
    · rcases exists_of_append_cons_eq hbehind.symm with ⟨v', hrhs, rfl⟩ | ⟨b', rfl, rfl⟩
      · apply hI.follow p hp w' A v' hrhs hA la
        cases hla with
        | begins h =>
          rcases h.of_append with h | ⟨hn, h⟩
          · exact .begins h
          · exact .passes hn (ih (Grammar.isNonterminal_lhs hp) (.begins h) rfl)
        | passes hn h =>
          rw [List.forall_mem_append] at hn
          exact .passes hn.1 (ih (Grammar.isNonterminal_lhs hp) (.passes hn.2 h) rfl)
      · exact ih (u := a ++ p.lhs :: b') hA hla (by simp)

/-- What can be derived holds in every model. -/
theorem derivability_included : (derivability g).Included I where
  nullable A h := nullable_of_derives hI h (by simp) A List.mem_cons_self
  first A x h := by
    obtain ⟨hA, hx, v, h⟩ := h
    cases begins_of_derives hI h (.terminal (Grammar.isTerminal_of_mem_terminals hx)) with
    | terminal => simp [Grammar.isNonterminal_of_mem_terminals hx] at hA
    | nonterminal _ hx => exact hx
    | skip _ _ h => exact absurd h First.not_begins_nil
  follow A la h := by
    cases la with
    | terminal t =>
      obtain ⟨hA, ht, B, -, u, v, h⟩ := h
      have hterminal := Grammar.isTerminal_of_mem_terminals ht
      exact followedBy_of_derives hI h hA (.begins (.terminal hterminal))
    | endOfInput =>
      obtain ⟨hA, u, h⟩ := h
      exact followedBy_of_derives hI h hA (.passes (by simp) hI.last)

end Complete

/-- The facts about a grammar say what can be derived, and nothing else. -/
theorem ofGrammar_included (g : Grammar) :
    (ofGrammar g).interpretation.Included (derivability g) :=
  interpretation_included (derivability_models g)

theorem included_ofGrammar (g : Grammar) :
    (derivability g).Included (ofGrammar g).interpretation :=
  derivability_included (closed_ofGrammar g).models

theorem spans_ofGrammar (g : Grammar) : (ofGrammar g).Spans g :=
  spans_ofProductions fun _ h => h

/-- A nonterminal is nullable if and only if it derives the empty string, and its FIRST set holds the
terminals that begin a string derived from it. -/
theorem nullable_first_exact {A : Nat} (hA : g.isNonterminal A = true) :
    (∃ b, (ofGrammar g).nullable? A = some b ∧ (b = true ↔ g.Derives [A] [])) ∧
      ∃ s, (ofGrammar g).first? A = some s ∧
        ∀ t, t ∈ s ↔ t ∈ g.terminals ∧ ∃ v, g.Derives [A] (t :: v) := by
  constructor
  · refine ⟨_, (spans_ofGrammar g).nullable?_eq hA, ?_⟩
    exact ⟨(ofGrammar_included g).nullable A, (included_ofGrammar g).nullable A⟩
  · refine ⟨_, (spans_ofGrammar g).first?_eq hA, fun t => ?_⟩
    constructor
    · intro h
      exact ((ofGrammar_included g).first A t h).2
    · intro h
      exact (included_ofGrammar g).first A t ⟨hA, h⟩

/-- In the grammar `S → a S b | ε`, `U → a U`, the symbol `S` is nullable and `U` is not, and both begin
with `a` only. -/
theorem nullable_first_exact_balanced :
    Grammar.balanced.isNonterminal 0 = true ∧ Grammar.balanced.Derives [0] [] ∧
      Grammar.balanced.isNonterminal 1 = true ∧ ¬Grammar.balanced.Derives [1] [] ∧
      (∃ v, Grammar.balanced.Derives [1] (3 :: v)) ∧ ¬∃ v, Grammar.balanced.Derives [0] (4 :: v) := by
  have hnullable : (ofGrammar .balanced).nullable? 0 = some true ∧
      (ofGrammar .balanced).nullable? 1 = some false := by
    decide +kernel
  have hfirst : (ofGrammar .balanced).first? 0 = some (.ofList [3]) ∧
      (ofGrammar .balanced).first? 1 = some (.ofList [3]) := by
    decide +kernel
  have h0 : Grammar.balanced.isNonterminal 0 = true := rfl
  have h1 : Grammar.balanced.isNonterminal 1 = true := rfl
  obtain ⟨⟨b, hb, hS⟩, s, hs, hfirstS⟩ := nullable_first_exact h0
  obtain ⟨⟨c, hc, hU⟩, t, ht, hfirstU⟩ := nullable_first_exact h1
  obtain rfl := Option.some.inj (hnullable.1.symm.trans hb)
  obtain rfl := Option.some.inj (hnullable.2.symm.trans hc)
  obtain rfl := Option.some.inj (hfirst.1.symm.trans hs)
  obtain rfl := Option.some.inj (hfirst.2.symm.trans ht)
  have ha : ∃ v, Grammar.balanced.Derives [1] (3 :: v) :=
    ((hfirstU 3).mp (OrdSet.mem_ofList.mpr List.mem_cons_self)).2
  have hno : ¬∃ v, Grammar.balanced.Derives [0] (4 :: v) := fun h =>
    absurd (OrdSet.mem_ofList.mp ((hfirstS 4).mpr ⟨by decide, h⟩)) (by decide)
  exact ⟨h0, hS.mp rfl, h1, fun h => absurd (hU.mpr h) (by decide), ha, hno⟩

/-- The FOLLOW set of a nonterminal holds the terminals that come right behind it in a string derived
from any nonterminal, the end of the input if it comes last in a string derived from the augmented start
symbol, and nothing else. -/
theorem follow_exact {A : Nat} (hA : g.isNonterminal A = true) :
    ∃ s, (ofGrammar g).follow? A = some s ∧
      (∀ t, .terminal t ∈ s ↔ t ∈ g.terminals ∧
        ∃ B, g.isNonterminal B = true ∧ ∃ u v, g.Derives [B] (u ++ A :: t :: v)) ∧
      (.endOfInput ∈ s ↔ ∃ u, g.Derives [g.augmentedStart] (u ++ [A])) := by
  refine ⟨_, (spans_ofGrammar g).follow?_eq hA, fun t => ?_, ?_⟩
  · constructor
    · intro h
      exact ((ofGrammar_included g).follow A (.terminal t) h).2
    · intro h
      exact (included_ofGrammar g).follow A (.terminal t) ⟨hA, h⟩
  · constructor
    · intro h
      exact ((ofGrammar_included g).follow A .endOfInput h).2
    · intro h
      exact (included_ofGrammar g).follow A .endOfInput ⟨hA, h⟩

/-- In the grammar `S → a S b | ε`, `U → a U`, the terminal `b` and the end of the input come behind `S`,
and `a` does not. -/
theorem follow_exact_balanced :
    Grammar.balanced.isNonterminal 0 = true ∧
      (∃ B, Grammar.balanced.isNonterminal B = true ∧
        ∃ u v, Grammar.balanced.Derives [B] (u ++ 0 :: 4 :: v)) ∧
      (∃ u, Grammar.balanced.Derives [2] (u ++ [0])) ∧
      ¬∃ B, Grammar.balanced.isNonterminal B = true ∧
        ∃ u v, Grammar.balanced.Derives [B] (u ++ 0 :: 3 :: v) := by
  have hfollow : (ofGrammar .balanced).follow? 0 = some (.ofList [.terminal 4, .endOfInput]) := by
    decide +kernel
  have h0 : Grammar.balanced.isNonterminal 0 = true := rfl
  obtain ⟨s, hs, hterminal, hend⟩ := follow_exact h0
  obtain rfl := Option.some.inj (hfollow.symm.trans hs)
  have hb := ((hterminal 4).mp (OrdSet.mem_ofList.mpr (by decide))).2
  have hlast := hend.mp (OrdSet.mem_ofList.mpr (by decide))
  have ha : ¬∃ B, Grammar.balanced.isNonterminal B = true ∧
      ∃ u v, Grammar.balanced.Derives [B] (u ++ 0 :: 3 :: v) := fun h =>
    absurd (OrdSet.mem_ofList.mp ((hterminal 3).mpr ⟨by decide, h⟩)) (by decide)
  exact ⟨h0, hb, hlast, ha⟩

end Facts

end SimpleLR
