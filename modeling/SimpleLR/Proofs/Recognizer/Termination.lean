import SimpleLR.Proofs.Recognizer.Completeness
import SimpleLR.Proofs.Recognizer.Steps

/-!
# Termination of the recognizer

A run can only fail to end by reducing for ever without shifting. Where all reachable nonterminals are
productive, whatever has been shifted and reduced goes on to some sentence. The run on such a sentence
makes the same reductions, and it ends; another sentence with the same next lookahead goes the same way
up to there. As there are finitely many lookaheads, there is a bound on the reductions that can be made
before the next shift.
-/
namespace SimpleLR

variable {g : Grammar} {f : Facts} {a : Automaton}

/-- Bounds for each element of a list have a bound in common. -/
theorem exists_common_bound {κ : Type} {P : κ → Nat → Prop}
    (mono : ∀ k m n, m ≤ n → P k m → P k n) (l : List κ) (h : ∀ k, ∃ n, P k n) :
    ∃ n, ∀ k ∈ l, P k n := by
  induction l with
  | nil => exact ⟨0, fun k hk => absurd hk List.not_mem_nil⟩
  | cons k l ih =>
    obtain ⟨m, hm⟩ := ih
    obtain ⟨n, hn⟩ := h k
    use max m n
    intro j hj
    rcases List.mem_cons.mp hj with rfl | hj
    · exact mono _ _ _ (Nat.le_max_right m n) hn
    · exact mono _ _ _ (Nat.le_max_left m n) (hm j hj)

namespace Config

theorem reduced_eq_of_read {c c' : Config} (h : c.read g = .running c') : c'.reduced = c.reduced := by
  simp only [read, finish] at h
  split at h
  · exact Progress.running.inj h ▸ rfl
  · split at h
    · exact Progress.running.inj h ▸ rfl
    · contradiction

theorem reduced_eq_of_reduce {c c' : Config} {p : Production} (h : c.reduce a p = .running c') :
    c'.reduced = p.id :: c.reduced := by
  simp only [reduce, finish] at h
  split at h
  · contradiction
  · split at h
    · contradiction
    · exact Progress.running.inj h ▸ rfl

/-- A step makes one reduction at most. -/
theorem reduced_le_of_step {c c' : Config} (h : c.step g a = .running c') :
    c'.reduced.length ≤ c.reduced.length + 1 := by
  simp only [step, finish] at h
  split at h
  · contradiction
  · split at h
    · contradiction
    · rw [reduced_eq_of_read h]
      exact Nat.le_succ _
    · split at h
      · contradiction
      · rw [reduced_eq_of_reduce h, List.length_cons]
    · contradiction

/-- A run that ends with some fuel makes no more reductions than that on its way. -/
theorem Runs.reduced_le {c c' : Config} (h : Runs g a c c') {fuel : Nat} {o : Outcome}
    (hrun : Progress.run g a fuel (.running c) = some o) :
    c'.reduced.length ≤ c.reduced.length + fuel := by
  induction h using Relation.ReflTransGen.head_induction_on generalizing fuel with
  | refl => exact Nat.le_add_right _ _
  | head hstep _ ih =>
    cases fuel with
    | zero => contradiction
    | succ fuel =>
      rw [Progress.run, hstep] at hrun
      have := reduced_le_of_step hstep
      have := ih hrun
      omega

end Config

/-- A string can be shifted with these reductions, and a sentence can go on with the other one. -/
def Grammar.GoesOn (g : Grammar) (x r y : List Nat) : Prop :=
  ∃ stack γ p d ω s, g.Spells stack γ ∧ g.Yields γ.reverse r x ∧ g.Open γ p d ω ∧
    g.Yields (p.rhs.drop d ++ ω) s y

namespace Grammar.GoesOn

variable {x r y : List Nat}

theorem isTerminalString (h : g.GoesOn x r y) : g.IsTerminalString y := by
  obtain ⟨_, _, _, _, _, _, -, -, -, hy⟩ := h
  exact hy.isTerminalString

theorem yields (h : g.GoesOn x r y) : ∃ r', g.Yields [g.start] r' (x ++ y) := by
  obtain ⟨stack, γ, p, d, ω, s, -, hx, hopen, hy⟩ := h
  have hxy := hx.append hy
  exact Yields.of_derives hxy.isTerminalString (hopen.derives.trans hxy.rightmostBy.derives)

/-- Where all reachable nonterminals are productive, everything goes on to some sentence. -/
theorem of_spells (hg : ∀ c, g.isNonterminal c = true → g.Reachable c → g.Productive c)
    {stack γ : List Nat} (hσ : g.Spells stack γ) (hx : g.Yields γ.reverse r x) :
    ∃ y, g.GoesOn x r y := by
  obtain ⟨t, below, st, rfl, hs⟩ := hσ.exists_top
  obtain ⟨i, hi⟩ := states_nonempty hs
  obtain ⟨p, d, ω, -, hopen⟩ := hσ.exists_open hs hi
  obtain ⟨_, _, hyields⟩ := exists_yields hg hopen.derives
  obtain ⟨_, s, _, y, -, -, -, hy⟩ := hyields.split
  exact ⟨y, _, _, p, d, ω, s, hσ, hx, hopen, hy⟩

end Grammar.GoesOn

section Bound

variable (ha : Automaton.build g f = .ok a) (hf : f.Closed g g.productions) (x : List Nat)

include ha hf

/-- The run on one sentence bounds the reductions of all that go on with the same lookahead. -/
theorem exists_bound_of_lookahead (la : Lookahead) :
    ∃ n, ∀ r y, g.GoesOn x r y → Lookahead.ofInput y = la → r.length ≤ n := by
  by_cases hex : ∃ r y, g.GoesOn x r y ∧ Lookahead.ofInput y = la
  · obtain ⟨r₀, y₀, h₀, rfl⟩ := hex
    obtain ⟨_, hsentence⟩ := h₀.yields
    obtain ⟨o, ⟨fuel, hrun⟩, -⟩ := Progress.run_of_yields ha hf hsentence
    rw [Progress.start_eq_running (Automaton.exists_accepting ha)
      hsentence.isTerminalString.readable] at hrun
    use fuel
    -- On its way, the run passes the moment of every other prefix that goes on with this lookahead.
    rintro r y ⟨stack, γ, p, d, ω, s, hσ, hx, hopen, hz⟩ hy
    have hle := (Config.runs_of_open ha hf hopen hσ hx hz hy.symm).reduced_le hrun
    simpa [Config.moment] using hle
  · exact ⟨0, fun r y h hy => absurd ⟨r, y, h, hy⟩ hex⟩

/-- There is a bound on the reductions with which a string can be shifted. -/
theorem exists_bound (hg : ∀ c, g.isNonterminal c = true → g.Reachable c → g.Productive c) :
    ∃ n, ∀ stack γ r, g.Spells stack γ → g.Yields γ.reverse r x → r.length ≤ n := by
  obtain ⟨n, hn⟩ := exists_common_bound
    (P := fun la n => ∀ r y, g.GoesOn x r y → Lookahead.ofInput y = la → r.length ≤ n)
    (fun _ _ _ hle h r y hr hy => Nat.le_trans (h r y hr hy) hle) (Follow.lookaheads g)
    (exists_bound_of_lookahead ha hf x)
  use n
  intro stack γ r hσ hx
  obtain ⟨y, hy⟩ := Grammar.GoesOn.of_spells hg hσ hx
  apply hn (.ofInput y) _ r y hy rfl
  have hterminal := hy.isTerminalString
  cases y with
  | nil => simp [Follow.lookaheads, Lookahead.ofInput]
  | cons c y => simp [Follow.lookaheads, Lookahead.ofInput, hterminal c List.mem_cons_self]

end Bound

namespace Progress

/-- A run comes to its end with some fuel. -/
def Ends (g : Grammar) (a : Automaton) (p : Progress) : Prop :=
  ∃ fuel, (run g a fuel p).isSome = true

theorem ends_ended (o : Outcome) : Ends g a (.ended o) := ⟨0, rfl⟩

theorem ends_of_step {c : Config} (h : Ends g a (c.step g a)) : Ends g a (.running c) := by
  obtain ⟨fuel, hfuel⟩ := h
  exact ⟨fuel + 1, hfuel⟩

/-- A bound on the reductions before the next shift brings a run to that shift, or to its end. -/
theorem ends_of_bound (ha : Automaton.build g f = .ok a) {x y : List Nat} {n : Nat}
    (hn : ∀ stack γ r, g.Spells stack γ → g.Yields γ.reverse r x → r.length ≤ n)
    (hshift : ∀ stack γ c y' reduced, y = c :: y' →
      Config.Valid g stack γ (x ++ [c]) y' reduced →
        Ends g a (.running (Config.moment stack (x ++ [c]) y' reduced)))
    {stack γ reduced : List Nat} (hv : Config.Valid g stack γ x y reduced) :
    Ends g a (.running (Config.moment stack x y reduced)) := by
  -- So many reductions are left to make; with none left, the bound has been passed.
  obtain ⟨k, hk⟩ : ∃ k, n < reduced.length + k := ⟨n + 1, by omega⟩
  induction k generalizing stack γ reduced with
  | zero =>
    have hle := hn stack γ _ hv.spells hv.yields
    rw [List.length_reverse] at hle
    omega
  | succ k ih =>
    apply ends_of_step
    have hdoes := hv.does ha
    generalize (Config.moment stack x y reduced).step g a = p at hdoes ⊢
    cases hdoes with
    | shift hy hv' => exact hshift _ _ _ _ _ hy hv'
    | reduce hp _ hv' =>
      apply ih hv'
      rw [List.length_cons]
      omega
    | accept | unreadable | stuck | unexpected => exact ends_ended _

theorem ends_of_valid (ha : Automaton.build g f = .ok a) (hf : f.Closed g g.productions)
    (hg : ∀ c, g.isNonterminal c = true → g.Reachable c → g.Productive c)
    {stack γ x y reduced : List Nat} (hv : Config.Valid g stack γ x y reduced) :
    Ends g a (.running (Config.moment stack x y reduced)) := by
  induction y generalizing stack γ x reduced with
  | nil =>
    obtain ⟨n, hn⟩ := exists_bound ha hf x hg
    exact ends_of_bound ha hn (fun _ _ _ _ _ h => by contradiction) hv
  | cons d y ih =>
    obtain ⟨n, hn⟩ := exists_bound ha hf x hg
    apply ends_of_bound ha hn _ hv
    intro stack γ c y' reduced h hv'
    obtain ⟨rfl, rfl⟩ := List.cons.inj h
    exact ih hv'

theorem ends_start (ha : Automaton.build g f = .ok a) (hf : f.Closed g g.productions)
    (hg : ∀ c, g.isNonterminal c = true → g.Reachable c → g.Productive c) (input : List Nat) :
    Ends g a (start g a input) := by
  apply start_induction (Ends g a) (Automaton.exists_accepting ha)
  · exact fun hinput => ends_of_valid ha hf hg ⟨.bottom, .nil, hinput⟩
  · exact fun _ _ _ _ => ends_ended _

end Progress

/-- With the tables of a grammar in which all nonterminals that the start symbol leads to are productive,
the recognizer comes to its end on every input. -/
theorem recognize_ends {t : Tables} (ht : Tables.build g = .ok t)
    (hg : ∀ c, g.isNonterminal c = true → g.Reachable c → g.Productive c) (input : List Nat)
    (states : List Nat) (stats : Stats) :
    ∃ fuel, ((⟨t.grammar, t.automaton, states, stats⟩ : Recognizer).recognize fuel input).isSome = true := by
  obtain ⟨rfl, ha⟩ := Tables.build_eq_ok ht
  obtain ⟨fuel, hfuel⟩ := Progress.ends_start ha (Facts.closed_ofGrammar _) hg input
  exact ⟨fuel, by simpa [Recognizer.recognize, Recognizer.start_eq] using hfuel⟩

/-- The recognizer of a grammar with a useless rule comes to its end on `abb`. -/
theorem recognize_ends_balanced : ∃ t, Tables.build .balanced = .ok t ∧
    (∀ c, Grammar.balanced.isNonterminal c = true → Grammar.balanced.Reachable c →
      Grammar.balanced.Productive c) ∧
    ∃ fuel, ((⟨t.grammar, t.automaton, [], .zero⟩ : Recognizer).recognize fuel
      [3, 4, 4]).isSome = true := by
  have hbuild : (Tables.build .balanced).toOption.isSome = true := by decide +kernel
  obtain ⟨t, ht⟩ := Option.isSome_iff_exists.mp hbuild
  have ht := eq_ok_of_toOption ht
  have hg := Grammar.balanced_productive
  exact ⟨t, ht, hg, recognize_ends ht hg [3, 4, 4] [] .zero⟩

end SimpleLR
