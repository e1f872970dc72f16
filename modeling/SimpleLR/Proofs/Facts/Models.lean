import SimpleLR.Proofs.Facts.Closed

/-!
# Models of the rules for facts

Each production is a rule about which symbols are nullable, what they can begin with and what can come
after them, and these notions may be interpreted by any predicates. Facts found by sweeping are a model
of the rules of the productions swept over, and they are included in every other model of them.
-/
namespace SimpleLR

variable {g : Grammar} {ps : List Production}

namespace First

/-- A string of symbols can begin with a terminal, where `N` says which symbols are nullable and `B` what
the nonterminals can begin with. -/
inductive Begins (g : Grammar) (N : Nat → Prop) (B : Nat → Nat → Prop) : List Nat → Nat → Prop
  | terminal {c : Nat} {u : List Nat} (hc : g.isTerminal c = true) : Begins g N B (c :: u) c
  | nonterminal {c x : Nat} {u : List Nat} (hc : g.isTerminal c = false) (hx : B c x) :
      Begins g N B (c :: u) x
  | skip {c x : Nat} {u : List Nat} (hc : g.isTerminal c = false) (hn : N c)
      (h : Begins g N B u x) : Begins g N B (c :: u) x

variable {N N' : Nat → Prop} {B B' : Nat → Nat → Prop} {u v : List Nat} {x : Nat}

theorem not_begins_nil : ¬Begins g N B [] x := nofun

theorem Begins.mono (hN : ∀ c, N c → N' c) (hB : ∀ c x, B c x → B' c x) (h : Begins g N B u x) :
    Begins g N' B' u x := by
  induction h with
  | terminal hc => exact .terminal hc
  | nonterminal hc hx => exact .nonterminal hc (hB _ _ hx)
  | skip hc hn _ ih => exact .skip hc (hN _ hn) ih

/-- What two strings in a row can begin with shows in the first of them, unless that is nullable. -/
theorem Begins.of_append (h : Begins g N B (u ++ v) x) :
    Begins g N B u x ∨ (∀ c ∈ u, N c) ∧ Begins g N B v x := by
  induction u with
  | nil => exact .inr ⟨fun _ h => absurd h List.not_mem_nil, h⟩
  | cons c u ih =>
    cases h with
    | terminal hc => exact .inl (.terminal hc)
    | nonterminal hc hx => exact .inl (.nonterminal hc hx)
    | skip hc hn h =>
      rcases ih h with hu | ⟨hu, hv⟩
      · exact .inl (.skip hc hn hu)
      · exact .inr ⟨List.forall_mem_cons.mpr ⟨hn, hu⟩, hv⟩

theorem Begins.append_left (hv : ∀ x, Begins g N B u x → Begins g N B v x) (w : List Nat)
    (h : Begins g N B (w ++ u) x) : Begins g N B (w ++ v) x := by
  induction w with
  | nil => exact hv x h
  | cons c w ih =>
    cases h with
    | terminal hc => exact .terminal hc
    | nonterminal hc hx => exact .nonterminal hc hx
    | skip hc hn h => exact .skip hc hn (ih h)

theorem mem_ofString {marks : Nullable.Marks} {sets : Sets} :
    x ∈ ofString g marks sets u ↔
      Begins g (fun c => Nullable.holds marks c = true) (fun c x => x ∈ setOf sets c) u x := by
  induction u with
  | nil => simp [ofString, not_begins_nil]
  | cons c u ih =>
    rw [ofString]
    split
    · rename_i hc
      rw [List.mem_singleton]
      constructor
      · rintro rfl
        exact .terminal hc
      · intro h
        cases h with
        | terminal => rfl
        | nonterminal hc' | skip hc' => simp [hc] at hc'
    · rename_i hc
      have hc : g.isTerminal c = false := by simpa using hc
      rw [List.mem_append]
      constructor
      · rintro (hx | hx)
        · exact .nonterminal hc hx
        · split at hx
          · exact .skip hc ‹_› (ih.mp hx)
          · exact absurd hx List.not_mem_nil
      · intro h
        cases h with
        | terminal hc' => simp [hc] at hc'
        | nonterminal _ hx => exact .inl hx
        | skip _ hn h =>
          right
          rw [if_pos hn]
          exact ih.mpr h

end First

namespace Follow

/-- A lookahead can come after a symbol that has `rest` after it in a production for `lhs`, where `A`
says what can come after the nonterminals. -/
inductive Comes (g : Grammar) (N : Nat → Prop) (B : Nat → Nat → Prop) (A : Nat → Lookahead → Prop)
    (lhs : Nat) (rest : List Nat) : Lookahead → Prop
  | begins {c : Nat} (h : First.Begins g N B rest c) : Comes g N B A lhs rest (.terminal c)
  | passes {la : Lookahead} (hn : ∀ c ∈ rest, N c) (h : A lhs la) : Comes g N B A lhs rest la

variable {N N' : Nat → Prop} {B B' : Nat → Nat → Prop} {A A' : Nat → Lookahead → Prop} {lhs : Nat}
  {rest : List Nat} {la : Lookahead}

theorem Comes.mono (hN : ∀ c, N c → N' c) (hB : ∀ c x, B c x → B' c x)
    (hA : ∀ c la, A c la → A' c la) (h : Comes g N B A lhs rest la) :
    Comes g N' B' A' lhs rest la := by
  cases h with
  | begins h => exact .begins (h.mono hN hB)
  | passes hn h => exact .passes (fun c hc => hN c (hn c hc)) (hA _ _ h)

theorem mem_after {marks : Nullable.Marks} {firsts : First.Sets} {sets : Sets} :
    la ∈ after g marks firsts sets lhs rest ↔
      Comes g (fun c => Nullable.holds marks c = true) (fun c x => x ∈ First.setOf firsts c)
        (fun c la => la ∈ setOf sets c) lhs rest la := by
  rw [after, List.mem_append, List.mem_map]
  constructor
  · rintro (⟨c, hc, rfl⟩ | hla)
    · exact .begins (First.mem_ofString.mp hc)
    · split at hla
      · rename_i hall
        exact .passes (List.all_eq_true.mp hall) hla
      · exact absurd hla List.not_mem_nil
  · intro h
    cases h with
    | begins h => exact .inl ⟨_, First.mem_ofString.mpr h, rfl⟩
    | passes hn h =>
      right
      rw [if_pos (List.all_eq_true.mpr hn)]
      exact h

end Follow

namespace Facts

/-- Predicates in the place of the facts about nonterminals. -/
structure Interpretation where
  IsNullable : Nat → Prop
  BeginsWith : Nat → Nat → Prop
  FollowedBy : Nat → Lookahead → Prop

namespace Interpretation

/-- What holds by one interpretation holds by the other. -/
structure Included (I J : Interpretation) : Prop where
  nullable : ∀ A, I.IsNullable A → J.IsNullable A
  first : ∀ A x, I.BeginsWith A x → J.BeginsWith A x
  follow : ∀ A la, I.FollowedBy A la → J.FollowedBy A la

/-- The rules of the productions hold, and the end of the input can come after the augmented start
symbol. -/
structure Models (g : Grammar) (ps : List Production) (I : Interpretation) : Prop where
  nullable : ∀ p ∈ ps, (∀ c ∈ p.rhs, I.IsNullable c) → I.IsNullable p.lhs
  first : ∀ p ∈ ps, ∀ x, First.Begins g I.IsNullable I.BeginsWith p.rhs x → I.BeginsWith p.lhs x
  follow : ∀ p ∈ ps, ∀ u A v, p.rhs = u ++ A :: v → g.isNonterminal A = true → ∀ la,
    Follow.Comes g I.IsNullable I.BeginsWith I.FollowedBy p.lhs v la → I.FollowedBy A la
  last : I.FollowedBy g.augmentedStart .endOfInput

theorem Models.mono {I : Interpretation} {qs : List Production} (hI : I.Models g qs) (h : ps ⊆ qs) :
    I.Models g ps where
  nullable p hp := hI.nullable p (h hp)
  first p hp := hI.first p (h hp)
  follow p hp := hI.follow p (h hp)
  last := hI.last

end Interpretation

/-- What the facts say. -/
def interpretation (f : Facts) : Interpretation where
  IsNullable A := f.isNullable A = true
  BeginsWith A x := x ∈ f.first A
  FollowedBy A la := la ∈ f.follow A

theorem Closed.models {f : Facts} (hf : f.Closed g ps) : f.interpretation.Models g ps where
  nullable p hp h := hf.nullable p hp (List.all_eq_true.mpr h)
  first p hp x h := hf.first p hp x (First.mem_ofString.mpr h)
  follow p hp u A v hrhs hA la h := hf.follow p hp u A v hrhs hA la (Follow.mem_after.mpr h)
  last := hf.last

end Facts

end SimpleLR
