import SimpleLR.Proofs.Automaton.Paths

/-!
# Chains of productions

A chain of productions leads from production 0 to one that is begun behind a string: each goes on, behind
a part of its right side, with the left side of the next one, and these parts make up the string. The
states can read just the strings that end in the beginning of such a production, and the item of a
production is in the state at the end of the path when its own beginning ends the string in this way.
-/
namespace SimpleLR.Grammar

/-- A chain of productions begins one behind a string. -/
inductive Begins (g : Grammar) : List Nat → Production → Prop
  | start : Begins g [] g.startProduction
  | next {β a b : List Nat} {p q : Production} (h : Begins g β p) (hq : q ∈ g.productions)
      (hrhs : p.rhs = a ++ q.lhs :: b) : Begins g (β ++ a) q

/-- A string ends in the first symbols of a production that a chain begins before them. -/
def Viable (g : Grammar) (γ : List Nat) (p : Production) (d : Nat) : Prop :=
  ∃ β, g.Begins β p ∧ γ = β ++ p.rhs.take d

variable {g : Grammar} {γ : List Nat} {p : Production} {d : Nat}

theorem Begins.exists_open (h : g.Begins γ p) : ∃ ω, g.Open γ.reverse p 0 ω := by
  induction h with
  | start => exact ⟨[], .start⟩
  | @next β a b p q h hq hrhs ih =>
    obtain ⟨ω, hopen⟩ := ih
    have hread := hopen.reads (u := a) hrhs
    have hnext : p.rhs[0 + a.length]? = some q.lhs := by simp [hrhs]
    rw [List.reverse_append]
    exact ⟨_, hread.call hq hnext⟩

theorem Open.viable {ω : List Nat} (h : g.Open γ p d ω) : g.Viable γ.reverse p d := by
  induction h with
  | start => exact ⟨[], .start, rfl⟩
  | @call γ ω p q d _ hq hd ih =>
    obtain ⟨β, hβ, hγ⟩ := ih
    have hrhs : p.rhs = p.rhs.take d ++ q.lhs :: p.rhs.drop (d + 1) := by
      rw [← drop_eq hd, List.take_append_drop]
    exact ⟨γ.reverse, hγ ▸ hβ.next hq hrhs, by simp⟩
  | @read γ ω p d X _ hd ih =>
    obtain ⟨β, hβ, hγ⟩ := ih
    refine ⟨β, hβ, ?_⟩
    simp [hγ, List.take_add_one, hd]

/-- The beginnings that end a string are those that an open production has there. -/
theorem viable_iff_open (hd : d ≤ p.rhs.length) :
    g.Viable γ p d ↔ ∃ ω, g.Open γ.reverse p d ω := by
  constructor
  · rintro ⟨β, hβ, rfl⟩
    obtain ⟨ω, hopen⟩ := hβ.exists_open
    have hread := hopen.reads (u := p.rhs.take d) (List.take_append_drop d p.rhs).symm
    rw [List.length_take, Nat.min_eq_left hd, Nat.zero_add, ← List.reverse_append] at hread
    exact ⟨ω, hread⟩
  · rintro ⟨ω, hopen⟩
    simpa using hopen.viable

/-- Where a production is open, the states can read the string. -/
theorem Open.exists_spells {ω : List Nat} (h : g.Open γ p d ω) : ∃ stack, g.Spells stack γ := by
  induction h with
  | start => exact ⟨[0], .bottom⟩
  | call _ _ _ ih => exact ih
  | read h hd ih =>
    obtain ⟨stack, hσ⟩ := ih
    obtain ⟨s, below, st, rfl, hs⟩ := hσ.exists_top
    obtain ⟨t, ht⟩ := states_transition hs (h.itemAt_mem hσ hs)
      ((Production.itemAt_next? h.mem _).trans hd)
    exact ⟨_, hσ.push hs ht⟩

/-- An open production is one whose item is in the state that the string leads to. -/
theorem exists_open_iff (hp : p ∈ g.productions) :
    (∃ ω, g.Open γ.reverse p d ω) ↔
      ∃ s st, pathEnd? g.states γ = some s ∧ g.states[s]? = some st ∧ p.itemAt d ∈ st.items := by
  constructor
  · rintro ⟨ω, hopen⟩
    obtain ⟨stack, hσ⟩ := hopen.exists_spells
    obtain ⟨s, below, st, rfl, hs⟩ := hσ.exists_top
    exact ⟨s, st, pathEnd?_eq_some.mpr ⟨below, hσ⟩, hs, hopen.itemAt_mem hσ hs⟩
  · rintro ⟨s, st, hγ, hs, hi⟩
    obtain ⟨below, hσ⟩ := pathEnd?_eq_some.mp hγ
    obtain ⟨q, e, ω, hi, hopen⟩ := hσ.exists_open hs hi
    obtain ⟨rfl, rfl⟩ := (Production.itemAt_inj hp hopen.mem).mp hi
    exact ⟨ω, hopen⟩

/-- A path ends in some item. -/
theorem exists_pathEnd?_iff :
    (∃ s, pathEnd? g.states γ = some s) ↔ ∃ p d ω, g.Open γ.reverse p d ω := by
  constructor
  · rintro ⟨s, hγ⟩
    obtain ⟨below, hσ⟩ := pathEnd?_eq_some.mp hγ
    obtain ⟨s', below', st, hstack, hs⟩ := hσ.exists_top
    obtain ⟨rfl, -⟩ := List.cons.inj hstack
    obtain ⟨i, hi⟩ := states_nonempty hs
    obtain ⟨p, d, ω, -, hopen⟩ := hσ.exists_open hs hi
    exact ⟨p, d, ω, hopen⟩
  · rintro ⟨p, d, ω, hopen⟩
    obtain ⟨stack, hσ⟩ := hopen.exists_spells
    obtain ⟨s, below, -, rfl, -⟩ := hσ.exists_top
    exact ⟨s, pathEnd?_eq_some.mpr ⟨below, hσ⟩⟩

/-- The state that a string leads to holds the items of the productions whose beginning ends the string
at the end of a chain, and there is such a state when there is such a production. -/
theorem itemAt_mem_iff_viable (g : Grammar) (γ : List Nat) :
    (∀ p ∈ g.productions, ∀ d ≤ p.rhs.length,
      ((∃ s st, pathEnd? g.states γ = some s ∧ g.states[s]? = some st ∧ p.itemAt d ∈ st.items) ↔
        g.Viable γ p d)) ∧
    ((∃ s, pathEnd? g.states γ = some s) ↔
      ∃ p ∈ g.productions, ∃ d ≤ p.rhs.length, g.Viable γ p d) := by
  constructor
  · intro p hp d hd
    rw [viable_iff_open hd, exists_open_iff hp]
  · rw [exists_pathEnd?_iff]
    constructor
    · rintro ⟨p, d, ω, hopen⟩
      exact ⟨p, hopen.mem, d, hopen.dot_le, (viable_iff_open hopen.dot_le).mpr ⟨ω, hopen⟩⟩
    · rintro ⟨p, -, d, hd, hviable⟩
      obtain ⟨ω, hopen⟩ := (viable_iff_open hd).mp hviable
      exact ⟨p, d, ω, hopen⟩

/-- Behind `aa`, the state has read an `a` of the rule `S → a S b` for the second time. -/
theorem itemAt_mem_balanced :
    (⟨1, 0, [3, 0, 4], []⟩ : Production) ∈ balanced.productions ∧ 1 ≤ [3, 0, 4].length ∧
      ∃ s st, pathEnd? balanced.states [3, 3] = some s ∧ balanced.states[s]? = some st ∧
        (⟨1, 1, 0⟩ : Item) ∈ st.items := by
  have hp : (⟨1, 0, [3, 0, 4], []⟩ : Production) ∈ balanced.productions := by decide
  have hfirst : balanced.Begins [] ⟨1, 0, [3, 0, 4], []⟩ := .next (a := []) .start hp rfl
  have hsecond : balanced.Begins [3] ⟨1, 0, [3, 0, 4], []⟩ := .next (a := [3]) hfirst hp rfl
  refine ⟨hp, by decide, ?_⟩
  exact ((itemAt_mem_iff_viable balanced [3, 3]).1 _ hp 1 (by decide)).mpr ⟨[3], hsecond, rfl⟩

end SimpleLR.Grammar
