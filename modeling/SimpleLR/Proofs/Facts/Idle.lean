import SimpleLR.Proofs.Facts.Exact

/-!
# Sets of idle nonterminals

Some nonterminals are idle: they derive no terminal string, or occur in nothing that the augmented start
symbol derives. Their sets need not be empty, because every production is visited for what it says. What
an idle nonterminal derives can begin with a terminal all the same, and another one that does not occur
either can put a terminal behind it.
-/
namespace SimpleLR

variable {g : Grammar}

/-- The symbol stands in a string that the augmented start symbol derives. -/
def Grammar.Occurs (g : Grammar) (c : Nat) : Prop :=
  ∃ a b, g.Derives [g.augmentedStart] (a ++ c :: b)

/-- What stands in a string derived from a nonterminal that occurs does so as well. -/
theorem Grammar.Occurs.derives {c d : Nat} {u v : List Nat} (hc : g.Occurs c)
    (h : g.Derives [c] (u ++ d :: v)) : g.Occurs d := by
  obtain ⟨a, b, hstart⟩ := hc
  use a ++ u, v ++ b
  have hmiddle : g.Derives (a ++ c :: b) (a ++ u ++ d :: (v ++ b)) := by
    simpa using h.within a b
  exact hstart.trans hmiddle

/-- The grammar `S → b` with idle rules `L → a L` and `U → b | U a` beside it. The codes are 0 for `S`, 1
for `L`, 2 for `U`, 4 for `a` and 5 for `b`. -/
def Grammar.withIdle : Grammar where
  name := "idle"
  package := ""
  symbols := [⟨"S", []⟩, ⟨"L", []⟩, ⟨"U", []⟩, .augmentedStart, ⟨"a", []⟩, ⟨"b", []⟩]
  augmentedStart := 3
  start := 0
  rules := [⟨1, 0, [5], []⟩, ⟨2, 1, [4, 1], []⟩, ⟨3, 2, [5], []⟩, ⟨4, 2, [2, 4], []⟩]
  start_lt := by decide
  symbols_augmentedStart := rfl
  names_nodup := by decide
  rules_ids := rfl
  rules_sides := by decide

theorem OrdSet.eq_empty_iff {α : Type} [Ord α] [Std.TransOrd α] {s : OrdSet α} :
    s = empty ↔ ∀ a, a ∉ s := by
  constructor
  · rintro rfl a
    exact not_mem_empty a
  · intro h
    ext a
    exact iff_of_false (h a) (not_mem_empty a)

namespace Facts

/-- The FIRST set of a nonterminal without terminal strings is empty, and so is the FOLLOW set of one that
does not occur. -/
structure IdleEmpty (f : Facts) (g : Grammar) : Prop where
  first : ∀ A, g.isNonterminal A = true → ¬g.Productive A → f.first? A = some .empty
  follow : ∀ A, g.isNonterminal A = true → ¬g.Occurs A → f.follow? A = some .empty

theorem first?_eq_empty_iff {A : Nat} (hA : g.isNonterminal A = true) :
    (ofGrammar g).first? A = some .empty ↔ ∀ t ∈ g.terminals, ∀ v, ¬g.Derives [A] (t :: v) := by
  rw [(spans_ofGrammar g).first?_eq hA, Option.some_inj, OrdSet.eq_empty_iff]
  constructor
  · intro h t ht v hd
    exact h t ((included_ofGrammar g).first A t ⟨hA, ht, v, hd⟩)
  · intro h t ht
    obtain ⟨-, hterminal, v, hd⟩ := (ofGrammar_included g).first A t ht
    exact h t hterminal v hd

/-- Only nonterminals that do not occur put anything behind one that does not occur. -/
theorem follow?_eq_empty_iff {A : Nat} (hA : g.isNonterminal A = true) (hidle : ¬g.Occurs A) :
    (ofGrammar g).follow? A = some .empty ↔ ∀ B, g.isNonterminal B = true → ¬g.Occurs B →
      ∀ t ∈ g.terminals, ∀ u v, ¬g.Derives [B] (u ++ A :: t :: v) := by
  rw [(spans_ofGrammar g).follow?_eq hA, Option.some_inj, OrdSet.eq_empty_iff]
  constructor
  · intro h B hB _ t ht u v hd
    exact h (.terminal t) ((included_ofGrammar g).follow A (.terminal t) ⟨hA, ht, B, hB, u, v, hd⟩)
  · intro h la hla
    have hfollowed := (ofGrammar_included g).follow A la hla
    cases la with
    | terminal t =>
      obtain ⟨-, ht, B, hB, u, v, hd⟩ := hfollowed
      exact h B hB (fun hoccurs => hidle (hoccurs.derives hd)) t ht u v hd
    | endOfInput =>
      obtain ⟨-, u, hd⟩ := hfollowed
      exact hidle ⟨u, [], hd⟩

/-- The sets of idle nonterminals are empty just in those grammars in which a nonterminal without terminal
strings derives nothing that begins with a terminal, and nonterminals that do not occur never derive one
of their kind with a terminal right behind it. -/
theorem idleEmpty_iff (g : Grammar) : (ofGrammar g).IdleEmpty g ↔
    (∀ A, g.isNonterminal A = true → ¬g.Productive A →
      ∀ t ∈ g.terminals, ∀ v, ¬g.Derives [A] (t :: v)) ∧
    ∀ A, g.isNonterminal A = true → ¬g.Occurs A → ∀ B, g.isNonterminal B = true → ¬g.Occurs B →
      ∀ t ∈ g.terminals, ∀ u v, ¬g.Derives [B] (u ++ A :: t :: v) := by
  constructor
  · intro h
    constructor
    · intro A hA hno
      exact (first?_eq_empty_iff hA).mp (h.first A hA hno)
    · intro A hA hno
      exact (follow?_eq_empty_iff hA hno).mp (h.follow A hA hno)
  · rintro ⟨hfirst, hfollow⟩
    constructor
    · intro A hA hno
      exact (first?_eq_empty_iff hA).mpr (hfirst A hA hno)
    · intro A hA hno
      exact (follow?_eq_empty_iff hA hno).mpr (hfollow A hA hno)

theorem withIdle_not_productive : ¬Grammar.withIdle.Productive 1 := by
  rintro ⟨w, hw, h⟩
  have hloop : ∃ c ∈ w, c = 1 := h.exists_mem (by decide) ⟨1, List.mem_cons_self, rfl⟩
  obtain ⟨c, hc, rfl⟩ := hloop
  exact absurd (hw 1 hc) (by decide)

theorem withIdle_not_occurs : ¬Grammar.withIdle.Occurs 2 := by
  rintro ⟨a, b, h⟩
  have hne : ∀ c ∈ a ++ 2 :: b, c ≠ 2 := h.forall_mem (by decide) (by decide)
  exact hne 2 (by simp) rfl

/-- The symbol `L` derives no terminal string and can begin with `a`, and `a` can follow `U`, which does
not occur. -/
theorem not_idleEmpty_withIdle : ¬(ofGrammar .withIdle).IdleEmpty .withIdle ∧
    (¬Grammar.withIdle.Productive 1 ∧ (ofGrammar .withIdle).first? 1 = some (.ofList [4])) ∧
    ¬Grammar.withIdle.Occurs 2 ∧
      (ofGrammar .withIdle).follow? 2 = some (.ofList [.terminal 4]) := by
  have hfirst : (ofGrammar .withIdle).first? 1 = some (.ofList [4]) := by
    decide +kernel
  have hfollow : (ofGrammar .withIdle).follow? 2 = some (.ofList [.terminal 4]) := by
    decide +kernel
  refine ⟨fun h => ?_, ⟨withIdle_not_productive, hfirst⟩, withIdle_not_occurs, hfollow⟩
  have hempty := h.first 1 rfl withIdle_not_productive
  rw [hfirst] at hempty
  exact absurd hempty (by decide)

end Facts

end SimpleLR
