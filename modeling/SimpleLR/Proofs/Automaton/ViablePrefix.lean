import SimpleLR.Automaton.Basic
import SimpleLR.Proofs.Automaton.States
import SimpleLR.Proofs.Derivation

/-!
# Viable prefixes

A stack of states spells the symbols of the transitions between them. The items of its top state are
those that stand at the end of the spelled string in a sentential form: the item's production has been
begun somewhere in the string, in place of a symbol that another production goes on with.
-/
namespace SimpleLR.Grammar

variable (g : Grammar)

/-- A stack of states, the top one first, that the symbols of a string lead to from state 0 on, the
last one first. -/
inductive Spells : List Nat → List Nat → Prop
  | bottom : Spells [0] []
  | push {s t X : Nat} {stack γ : List Nat} {st : State} (h : Spells (s :: stack) γ)
      (hs : g.states[s]? = some st) (ht : st.transition? X = some t) :
      Spells (t :: s :: stack) (X :: γ)

/-- A string, the last symbol first, is followed in a sentential form by what a production has left
after its dot, and then by what the productions around it have left. -/
inductive Open : List Nat → Production → Nat → List Nat → Prop
  | start : Open [] g.startProduction 0 []
  | call {γ ω : List Nat} {p q : Production} {d : Nat} (h : Open γ p d ω) (hq : q ∈ g.productions)
      (hd : p.rhs[d]? = some q.lhs) : Open γ q 0 (p.rhs.drop (d + 1) ++ ω)
  | read {γ ω : List Nat} {p : Production} {d X : Nat} (h : Open γ p d ω)
      (hd : p.rhs[d]? = some X) : Open (X :: γ) p (d + 1) ω

variable {g}

namespace Spells

variable {stack γ : List Nat}

/-- There is a state on top. -/
theorem exists_top (h : g.Spells stack γ) :
    ∃ s below st, stack = s :: below ∧ g.states[s]? = some st := by
  cases h with
  | bottom =>
    obtain ⟨st, hst, -⟩ := g.states_zero
    exact ⟨0, [], st, rfl, hst⟩
  | push _ hs ht =>
    obtain ⟨st, hst, -⟩ := states_target hs ht
    exact ⟨_, _, st, rfl, hst⟩

/-- The lower part of a stack spells the beginning of the string. -/
theorem drop {β : List Nat} (h : g.Spells stack (β ++ γ)) :
    g.Spells (stack.drop β.length) γ := by
  induction β generalizing stack with
  | nil => exact h
  | cons X β ih =>
    cases h with
    | push h _ _ => exact ih h

theorem unique {stack' : List Nat} (h : g.Spells stack γ) (h' : g.Spells stack' γ) :
    stack = stack' := by
  induction h generalizing stack' with
  | bottom =>
    cases h'
    rfl
  | push _ hs ht ih =>
    cases h' with
    | push h' hs' ht' =>
      obtain ⟨rfl, rfl⟩ := List.cons.inj (ih h')
      rw [hs] at hs'
      obtain rfl := Option.some.inj hs'
      rw [ht] at ht'
      rw [Option.some.inj ht']

end Spells

/-- Every state is on top of some stack. -/
theorem exists_spells {s : Nat} {st : State} (hs : g.states[s]? = some st) :
    ∃ stack γ, g.Spells (s :: stack) γ := by
  induction s using Nat.strongRecOn generalizing st with
  | ind s ih =>
    by_cases h0 : s = 0
    · exact ⟨[], [], h0 ▸ .bottom⟩
    · obtain ⟨r, hlt, st', X, hr, ht⟩ := states_entered hs h0
      obtain ⟨stack, γ, h⟩ := ih r hlt hr
      exact ⟨r :: stack, X :: γ, .push h hr ht⟩

namespace Open

variable {γ ω : List Nat} {p : Production} {d : Nat}

theorem mem (h : g.Open γ p d ω) : p ∈ g.productions := by
  induction h with
  | start => exact List.mem_cons_self
  | call _ hq _ _ => exact hq
  | read _ _ ih => exact ih

theorem dot_le (h : g.Open γ p d ω) : d ≤ p.rhs.length := by
  cases h with
  | start => exact Nat.zero_le _
  | call => exact Nat.zero_le _
  | read _ hd => exact (List.getElem?_eq_some_iff.mp hd).1

/-- What the production has left, with the next symbol split off. -/
theorem drop_eq {X : Nat} {rhs : List Nat} (hd : rhs[d]? = some X) :
    rhs.drop d = X :: rhs.drop (d + 1) := by
  obtain ⟨hlt, rfl⟩ := List.getElem?_eq_some_iff.mp hd
  exact List.drop_eq_getElem_cons hlt

theorem getElem?_of_drop_eq {X : Nat} {rhs rest : List Nat} (h : rhs.drop d = X :: rest) :
    rhs[d]? = some X := by
  rw [← List.head?_drop, h]
  rfl

theorem drop_succ_of_drop_eq {X : Nat} {rhs rest : List Nat} (h : rhs.drop d = X :: rest) :
    rhs.drop (d + 1) = rest := by
  rw [List.drop_add_one_eq_tail_drop, h]
  rfl

/-- A part of what the production has left is read. -/
theorem reads {u v : List Nat} (h : g.Open γ p d ω) (hd : p.rhs.drop d = u ++ v) :
    g.Open (u.reverse ++ γ) p (d + u.length) ω := by
  induction u generalizing γ d with
  | nil => exact h
  | cons X u ih =>
    have hu := ih (h.read (getElem?_of_drop_eq hd)) (drop_succ_of_drop_eq hd)
    rw [Nat.add_assoc, Nat.add_comm 1] at hu
    simpa using hu

theorem derives (h : g.Open γ p d ω) :
    g.Derives [g.start] (γ.reverse ++ (p.rhs.drop d ++ ω)) := by
  induction h with
  | start => exact .refl
  | @call γ ω p q d _ hq hd ih =>
    apply ih.tail
    use q, hq, γ.reverse, p.rhs.drop (d + 1) ++ ω
    simp [drop_eq hd]
  | @read γ ω p d X _ hd ih =>
    rw [drop_eq hd] at ih
    simpa using ih

/-- The beginning of a production stands at the end of the string. -/
theorem before (h : g.Open γ p d ω) :
    ∃ γ', γ = (p.rhs.take d).reverse ++ γ' ∧ g.Open γ' p 0 ω := by
  induction h with
  | start => exact ⟨[], by simp, .start⟩
  | @call γ _ _ _ _ h hq hd _ => exact ⟨γ, by simp, .call h hq hd⟩
  | @read γ ω p d X _ hd ih =>
    obtain ⟨γ', rfl, h0⟩ := ih
    exact ⟨γ', by simp [List.take_add_one, hd], h0⟩

/-- A production that was begun is production 0, or was called for. -/
theorem caller (h : g.Open γ p 0 ω) : γ = [] ∧ p = g.startProduction ∧ ω = [] ∨
    ∃ q d ω', g.Open γ q d ω' ∧ q.rhs[d]? = some p.lhs ∧ ω = q.rhs.drop (d + 1) ++ ω' := by
  cases h with
  | start => exact .inl ⟨rfl, rfl, rfl⟩
  | call h _ hd => exact .inr ⟨_, _, _, h, hd, rfl⟩

/-- Production 0 is begun nowhere but at the beginning. -/
theorem eq_of_lhs (h : g.Open γ p d ω) (hp : p.lhs = g.augmentedStart) :
    γ = (p.rhs.take d).reverse ∧ p = g.startProduction := by
  obtain ⟨γ', rfl, h0⟩ := h.before
  rcases h0.caller with ⟨rfl, rfl, -⟩ | ⟨q, e, ω', hq, he, -⟩
  · simp
  · exact absurd hp (rhs_lt hq.mem (List.mem_of_getElem? he)).2

/-- The top state of a stack that spells the string holds the item. -/
theorem itemAt_mem (h : g.Open γ p d ω) {s : Nat} {stack : List Nat} {st : State}
    (hσ : g.Spells (s :: stack) γ) (hs : g.states[s]? = some st) : p.itemAt d ∈ st.items := by
  induction h generalizing s stack st with
  | start =>
    cases hσ
    rw [items_zero hs]
    exact closure_given List.mem_cons_self
  | @call γ ω p q d h hq hd ih =>
    exact states_predicted hs h.mem hq (ih hσ hs) hd
  | @read γ ω p d X h hd ih =>
    cases hσ with
    | push hσ hr ht =>
      rw [items_target hr ht hs]
      apply closure_given
      have hnext : (p.itemAt d).next? g = some X := by rw [Production.itemAt_next? h.mem, hd]
      exact mem_movesOn.mpr ⟨p.itemAt d, ih hσ hr, hnext, rfl⟩

/-- The state in which a production was begun goes on with its left side, unless that is production 0. -/
theorem exists_transition (h : g.Open γ p 0 ω) (hp : p ≠ g.startProduction) {s : Nat}
    {stack : List Nat} {st : State} (hσ : g.Spells (s :: stack) γ) (hs : g.states[s]? = some st) :
    ∃ t, st.transition? p.lhs = some t := by
  rcases h.caller with ⟨-, h0, -⟩ | ⟨q, d, ω', hq, hd, -⟩
  · exact absurd h0 hp
  · apply states_transition hs (hq.itemAt_mem hσ hs)
    rw [Production.itemAt_next? hq.mem, hd]

/-- Under the right side of a production that has been read stands a state that goes on with its left
side, unless that is production 0. -/
theorem exists_goto (h : g.Open γ p p.rhs.length ω) (hp : p ≠ g.startProduction) {stack : List Nat}
    (hσ : g.Spells stack γ) : ∃ γ' top below st t, γ = p.rhs.reverse ++ γ' ∧
      stack.drop p.rhs.length = top :: below ∧ g.Spells (top :: below) γ' ∧
      g.states[top]? = some st ∧ st.transition? p.lhs = some t := by
  obtain ⟨γ', rfl, hbegun⟩ := h.before
  rw [List.take_length] at hσ ⊢
  have hunder := hσ.drop
  rw [List.length_reverse] at hunder
  obtain ⟨top, below, st, hdrop, hst⟩ := hunder.exists_top
  rw [hdrop] at hunder
  obtain ⟨t, ht⟩ := hbegun.exists_transition hp hunder hst
  exact ⟨γ', top, below, st, t, rfl, hdrop, hunder, hst, ht⟩

end Open

theorem exists_open_of_calls {γ : List Nat} {kernel : List Item}
    (hk : ∀ i ∈ kernel, ∃ p d ω, i = p.itemAt d ∧ g.Open γ p d ω) {i : Item}
    (hi : Calls g kernel i) : ∃ p d ω, i = p.itemAt d ∧ g.Open γ p d ω := by
  induction hi with
  | given h => exact hk _ h
  | predicted _ hj ih =>
    obtain ⟨p, d, ω, rfl, h⟩ := ih
    obtain ⟨q, hq, hnext, rfl⟩ := mem_predictions.mp hj
    rw [Production.itemAt_next? h.mem] at hnext
    exact ⟨q, 0, _, rfl, .call h hq hnext⟩

/-- An item of the top state stands at the end of the string that the stack spells. -/
theorem Spells.exists_open {s : Nat} {stack γ : List Nat} {st : State}
    (hσ : g.Spells (s :: stack) γ) (hs : g.states[s]? = some st) {i : Item} (hi : i ∈ st.items) :
    ∃ p d ω, i = p.itemAt d ∧ g.Open γ p d ω := by
  generalize hσ' : s :: stack = stack' at hσ
  induction hσ generalizing s stack st i with
  | bottom =>
    obtain ⟨rfl, -⟩ := List.cons.inj hσ'
    rw [items_zero hs, mem_closure] at hi
    apply exists_open_of_calls _ hi
    intro j hj
    exact ⟨_, 0, [], List.mem_singleton.mp hj, .start⟩
  | push _ hr ht ih =>
    obtain ⟨rfl, -⟩ := List.cons.inj hσ'
    rw [items_target hr ht hs, goto, mem_closure] at hi
    apply exists_open_of_calls _ hi
    intro j hj
    obtain ⟨i, hi, hnext, rfl⟩ := mem_movesOn.mp hj
    obtain ⟨p, d, ω, rfl, h⟩ := ih hr hi rfl
    rw [Production.itemAt_next? h.mem] at hnext
    exact ⟨p, d + 1, ω, rfl, .read h hnext⟩

theorem acceptItem_eq : g.acceptItem = g.startProduction.itemAt 1 := rfl

/-- State 0 goes on the start symbol to a state that holds the item of production 0 with that symbol read. -/
theorem exists_acceptItem (g : Grammar) : ∃ st a st', g.states[0]? = some st ∧
    st.transition? g.start = some a ∧ g.states[a]? = some st' ∧ g.acceptItem ∈ st'.items := by
  obtain ⟨st, hst, hitems⟩ := g.states_zero
  have hmem : g.startProduction.itemAt 0 ∈ st.items := by
    rw [hitems]
    exact closure_given List.mem_cons_self
  have hnext : (g.startProduction.itemAt 0).next? g = some g.start := by
    rw [Production.itemAt_next? List.mem_cons_self]
    rfl
  obtain ⟨a, ha⟩ := states_transition hst hmem hnext
  obtain ⟨st', hst', hitems', -⟩ := states_target hst ha
  refine ⟨st, a, st', hst, ha, hst', ?_⟩
  rw [hitems']
  exact closure_given (mem_movesOn.mpr ⟨_, hmem, hnext, rfl⟩)

/-- Only one state holds the item of production 0 with the start symbol read. -/
theorem acceptItem_unique {s t : Nat} {st st' : State} (hs : g.states[s]? = some st)
    (ht : g.states[t]? = some st') (h : g.acceptItem ∈ st.items) (h' : g.acceptItem ∈ st'.items) :
    s = t := by
  have hspells : ∀ {s : Nat} {st : State}, g.states[s]? = some st → g.acceptItem ∈ st.items →
      ∃ stack, g.Spells (s :: stack) [g.start] := by
    intro s st hs h
    obtain ⟨stack, γ, hσ⟩ := exists_spells hs
    obtain ⟨p, d, ω, hi, hopen⟩ := hσ.exists_open hs h
    rw [acceptItem_eq, Production.itemAt_inj List.mem_cons_self hopen.mem] at hi
    obtain ⟨rfl, rfl⟩ := hi
    obtain ⟨rfl, -⟩ := hopen.eq_of_lhs rfl
    exact ⟨stack, hσ⟩
  obtain ⟨stack, hσ⟩ := hspells hs h
  obtain ⟨stack', hσ'⟩ := hspells ht h'
  exact (List.cons.inj (hσ.unique hσ')).1

end SimpleLR.Grammar
