import SimpleLR.Proofs.Automaton.Actions
import SimpleLR.Proofs.Recognizer.Moments

/-!
# Steps of a run

At a valid moment the stack spells a string of symbols, and the productions reduced by are a parse of
what has been shifted as that string. A step shifts a terminal, puts a left side in the place of a right
side that the string ends in, or ends the run; what it leads to is valid again. None of this depends on
the facts that the reduce table was built from.
-/
namespace SimpleLR

variable {g : Grammar} {f : Facts} {a : Automaton}

/-- A production that has been parsed at the end of a string is put in its place. -/
theorem Grammar.Yields.complete {p : Production} (hp : p ∈ g.productions) {γ reduced x : List Nat}
    (h : g.Yields (p.rhs.reverse ++ γ).reverse reduced.reverse x) :
    g.Yields (p.lhs :: γ).reverse (p.id :: reduced).reverse x := by
  rw [List.reverse_append, List.reverse_reverse] at h
  obtain ⟨r₁, r₂, w₁, w₂, hr, rfl, h₁, h₂⟩ := h.split
  rw [List.reverse_cons, List.reverse_cons, hr, List.append_assoc]
  exact h₁.append (h₂.single hp)

/-- A terminal is parsed behind what has been parsed. -/
theorem Grammar.Yields.shift {γ reduced x : List Nat} {c : Nat} (hc : c ∈ g.terminals)
    (h : g.Yields γ.reverse reduced.reverse x) :
    g.Yields (c :: γ).reverse reduced.reverse (x ++ [c]) := by
  simpa using h.append (.terminal hc .nil)

namespace Config

/-- The stack spells a string as which what has been shifted is parsed by the reductions. -/
structure Valid (g : Grammar) (stack γ x y reduced : List Nat) : Prop where
  spells : g.Spells stack γ
  yields : g.Yields γ.reverse reduced.reverse x
  readable : g.Readable y

/-- What a step can do at a moment of a run. -/
inductive Does (g : Grammar) (a : Automaton) (stack γ x y reduced : List Nat) : Progress → Prop
  | shift {c t : Nat} {y' : List Nat} (hy : y = c :: y')
      (hv : Valid g (t :: stack) (c :: γ) (x ++ [c]) y' reduced) :
      Does g a stack γ x y reduced (.running (moment (t :: stack) (x ++ [c]) y' reduced))
  | unreadable {c d t : Nat} {y' : List Nat} (hy : y = c :: d :: y') (hd : d ∉ g.terminals) :
      Does g a stack γ x y reduced
        (.ended ⟨.error (.notTerminal d), ⟨x.length + 1, x.length + 1, reduced.length⟩, t :: stack⟩)
  | reduce {p : Production} {t : Nat} {γ' : List Nat} (hp : p ∈ g.productions)
      (hγ : γ = p.rhs.reverse ++ γ')
      (hv : Valid g (t :: stack.drop p.rhs.length) (p.lhs :: γ') x y (p.id :: reduced)) :
      Does g a stack γ x y reduced
        (.running (moment (t :: stack.drop p.rhs.length) x y (p.id :: reduced)))
  | stuck {s : Nat} {below : List Nat} (hs : stack = s :: below) (hy : y ≠ [])
      (h : a.reduces.get? s (.ofInput y) = some g.acceptItem) :
      Does g a stack γ x y reduced
        (.ended ⟨.error (.noGoto g.augmentedStart 0), (moment stack x y reduced).stats, [0]⟩)
  | accept (hy : y = []) (hγ : γ = [g.start]) :
      Does g a stack γ x y reduced
        (.ended ⟨.ok reduced.reverse, (moment stack x y reduced).stats, stack⟩)
  | unexpected {s : Nat} {below : List Nat} (hs : stack = s :: below)
      (h : a.action? s (.ofInput y) = none) :
      Does g a stack γ x y reduced
        (.ended ⟨.error (.unexpected (.ofInput y) s), (moment stack x y reduced).stats, stack⟩)

variable {stack γ x y reduced : List Nat}

section

variable {s : Nat} {below : List Nat} {st : State} (ha : Automaton.build g f = .ok a)
  (hv : Valid g (s :: below) γ x y reduced) (hs : g.states[s]? = some st)

include ha hv hs

theorem Valid.does_shift {t : Nat} (h : a.action? s (.ofInput y) = some (.shift t)) :
    Does g a (s :: below) γ x y reduced ((moment (s :: below) x y reduced).step g a) := by
  obtain ⟨c, hc, ht⟩ := Automaton.of_action?_shift ha hs h
  cases y with
  | nil => contradiction
  | cons d y' =>
    obtain rfl := Lookahead.terminal.inj hc
    rw [step_shift h]
    have hspells := hv.spells.push hs ht
    have hyields := hv.yields.shift (Grammar.readable_cons.mp hv.readable)
    rcases Grammar.readable_or y' with hy' | ⟨e, y', rfl, he⟩
    · rw [read_eq_running hy']
      exact .shift rfl ⟨hspells, hyields, hy'⟩
    · rw [read_eq_ended he]
      simpa using Does.unreadable (g := g) (a := a) (x := x) rfl he

theorem Valid.does_reduce {i : Item} (h : a.action? s (.ofInput y) = some (.reduce i)) :
    Does g a (s :: below) γ x y reduced ((moment (s :: below) x y reduced).step g a) := by
  obtain ⟨hi, hc, hget, hno⟩ := Automaton.of_action?_reduce ha hs h
  obtain ⟨p, d, ω, rfl, hopen⟩ := hv.spells.exists_open hs hi
  have hp := hopen.mem
  obtain rfl := (Production.itemAt_isComplete hp d).mp hc
  rw [step_reduce h (Grammar.production?_id hp)]
  by_cases h0 : p = g.startProduction
  · subst h0
    -- The string is the start symbol, and state 0 does not go on with the augmented one.
    obtain rfl := (hopen.eq_of_lhs rfl).1
    cases hv.spells with
    | push hunder _ _ =>
      cases hunder
      obtain ⟨st', hst', -⟩ := g.states_zero
      rw [reduce_eq_ended rfl
        ((Automaton.transition?_eq ha hst' _).trans (Grammar.states_augmentedStart hst'))]
      apply Does.stuck rfl _ hget
      rintro rfl
      exact hno ⟨rfl, hi⟩
  · obtain ⟨γ', top, below', st', t, rfl, hdrop, hunder, hst', ht⟩ := hopen.exists_goto h0 hv.spells
    rw [reduce_eq_running hdrop ((Automaton.transition?_eq ha hst' _).trans ht), ← hdrop]
    apply Does.reduce hp rfl
    constructor
    · rw [hdrop]
      exact hunder.push hst' ht
    · exact hv.yields.complete hp
    · exact hv.readable

end

/-- A step at a valid moment does one of these things. -/
theorem Valid.does (ha : Automaton.build g f = .ok a) (hv : Valid g stack γ x y reduced) :
    Does g a stack γ x y reduced ((moment stack x y reduced).step g a) := by
  obtain ⟨s, below, st, rfl, hs⟩ := hv.spells.exists_top
  cases haction : a.action? s (.ofInput y) with
  | none =>
    rw [step_unexpected haction]
    exact .unexpected rfl haction
  | some action =>
    cases action with
    | shift t => exact hv.does_shift ha hs haction
    | reduce i => exact hv.does_reduce ha hs haction
    | accept =>
      obtain ⟨hla, hi⟩ := Automaton.of_action?_accept ha hs haction
      obtain ⟨p, d, ω, hpd, hopen⟩ := hv.spells.exists_open hs hi
      rw [Grammar.acceptItem_eq, Production.itemAt_inj List.mem_cons_self hopen.mem] at hpd
      obtain ⟨rfl, rfl⟩ := hpd
      rw [step_accept haction]
      apply Does.accept
      · cases y with
        | nil => rfl
        | cons c y => contradiction
      · exact (hopen.eq_of_lhs rfl).1

end Config

end SimpleLR
