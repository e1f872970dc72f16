import SimpleLR.Proofs.Automaton.Actions
import SimpleLR.Proofs.Recognizer.Moments

/-!
# Completeness of the recognizer

The recognizer follows every parse. Where a production is open, what it has left is shifted and reduced
as its parse says, as long as the rest of the input shows lookaheads that the FOLLOW sets know of; the
tables of a grammar without conflicts have no other action to take. So a run on a sentence reports the
productions of its parse.
-/
namespace SimpleLR

variable {g : Grammar} {f : Facts} {a : Automaton}

namespace Config

section

variable (ha : Automaton.build g f = .ok a) {stack γ ω y : List Nat} {p : Production} {d : Nat}

include ha

/-- A terminal that an open production has next is shifted. -/
theorem step_open_shift (hopen : g.Open γ p d ω) {c : Nat} (hd : p.rhs[d]? = some c)
    (hσ : g.Spells stack γ) (hy : g.Readable y) (x reduced : List Nat) :
    ∃ t, g.Spells (t :: stack) (c :: γ) ∧ (moment stack x (c :: y) reduced).step g a =
      .running (moment (t :: stack) (x ++ [c]) y reduced) := by
  obtain ⟨s, below, st, rfl, hs⟩ := hσ.exists_top
  obtain ⟨t, ht⟩ := Grammar.states_transition hs (hopen.itemAt_mem hσ hs)
    ((Production.itemAt_next? hopen.mem d).trans hd)
  use t, hσ.push hs ht
  rw [step_shift (Automaton.action?_shift ha hs ht), read_eq_running hy]

/-- A production that has been read is reduced by, when the lookahead can come after its left side. -/
theorem step_open_reduce (hlast : .endOfInput ∈ f.follow g.augmentedStart) (hopen : g.Open γ p 0 ω)
    (hp : p ≠ g.startProduction) (hσ : g.Spells stack γ) {stack' : List Nat}
    (hσ' : g.Spells stack' (p.rhs.reverse ++ γ)) (hla : .ofInput y ∈ f.follow p.lhs)
    (x reduced : List Nat) :
    ∃ t, g.Spells (t :: stack) (p.lhs :: γ) ∧ (moment stack' x y reduced).step g a =
      .running (moment (t :: stack) x y (p.id :: reduced)) := by
  have hdrop : stack'.drop p.rhs.length = stack := by
    have := hσ'.drop
    rw [List.length_reverse] at this
    exact this.unique hσ
  obtain ⟨s, below, st, rfl, hs⟩ := hσ.exists_top
  obtain ⟨s', below', st', rfl, hs'⟩ := hσ'.exists_top
  obtain ⟨t, ht⟩ := hopen.exists_transition hp hσ hs
  have hdone : g.Open (p.rhs.reverse ++ γ) p p.rhs.length ω := by
    simpa using hopen.reads (u := p.rhs) (v := []) (by simp)
  obtain ⟨j, hj, hid⟩ := Automaton.action?_reduce ha hlast hs' hopen.mem hp
    (hdone.itemAt_mem hσ' hs') hla
  use t, hσ.push hs ht
  rw [step_reduce hj (by rw [hid, Grammar.production?_id hopen.mem]),
    reduce_eq_running hdrop ((Automaton.transition?_eq ha hs _).trans ht)]

end

/-- Where a production is open, a run follows the parse of what the production has next. What comes
behind has to look like a parse of all that is left, as far as the next lookahead. -/
theorem runs_of_yields (ha : Automaton.build g f = .ok a) (hf : f.Closed g g.productions)
    {u r w : List Nat} (hu : g.Yields u r w) {stack γ ω v s z y : List Nat} {p : Production} {d : Nat}
    (hopen : g.Open γ p d ω) (hd : p.rhs.drop d = u ++ v) (hz : g.Yields (v ++ ω) s z)
    (hy : Lookahead.ofInput y = .ofInput z) (hσ : g.Spells stack γ) (x reduced : List Nat) :
    ∃ stack', g.Spells stack' (u.reverse ++ γ) ∧
      Runs g a (moment stack x (w ++ y) reduced) (moment stack' (x ++ w) y (r.reverse ++ reduced)) := by
  induction hu generalizing stack γ ω v s z y p d x reduced with
  | nil =>
    use stack, hσ
    rw [List.append_nil]
    exact .refl _
  | @terminal c u r w hc hu ih =>
    have hnext := Grammar.Open.getElem?_of_drop_eq hd
    have hrest := Grammar.Open.drop_succ_of_drop_eq hd
    have hread : g.Readable (w ++ y) := by
      rw [Grammar.Readable, Lookahead.ofInput_append hy]
      exact (hu.append hz).isTerminalString.readable
    obtain ⟨t, hσ₁, hstep⟩ := step_open_shift ha hopen hnext hσ hread x reduced
    obtain ⟨stack', hσ', hruns⟩ := ih (hopen.read hnext) hrest hz hy hσ₁ (x ++ [c]) reduced
    exact ⟨stack', by simpa using hσ', .head hstep (by simpa using hruns)⟩
  | @node q u r s' v' w hq hr hu ihr ih =>
    rw [List.cons_append] at hd
    have hnext := Grammar.Open.getElem?_of_drop_eq hd
    have hrest := Grammar.Open.drop_succ_of_drop_eq hd
    have hcall := hopen.call hq hnext
    have hbehind : g.Yields (p.rhs.drop (d + 1) ++ ω) (s' ++ s) (w ++ z) := by
      rw [hrest, List.append_assoc]
      exact hu.append hz
    have hwy := Lookahead.ofInput_append hy w
    have hla : .ofInput (w ++ y) ∈ f.follow q.lhs :=
      hwy ▸ hf.ofInput_mem_follow_of_open hcall hbehind
    have hq0 : q ≠ g.startProduction := by
      rintro rfl
      exact (Grammar.rhs_lt hopen.mem (List.mem_of_getElem? hnext)).2 rfl
    -- First the right side of the called production, then the reduction, then the rest.
    obtain ⟨stack₁, hσ₁, hruns₁⟩ := ihr (v := []) hcall (by simp) hbehind hwy hσ x reduced
    obtain ⟨t, hσ₂, hstep⟩ := step_open_reduce ha hf.last hcall hq0 hσ hσ₁ hla (x ++ v')
      (r.reverse ++ reduced)
    obtain ⟨stack', hσ', hruns⟩ := ih (hopen.read hnext) hrest hz hy hσ₂ (x ++ v')
      (q.id :: (r.reverse ++ reduced))
    have hall := hruns₁.trans (.head hstep hruns)
    exact ⟨stack', by simpa using hσ', by simpa using hall⟩

/-- A run from the beginning gets to where a production is open, by way of the parse of what is to be
shifted before. -/
theorem runs_of_open (ha : Automaton.build g f = .ok a) (hf : f.Closed g g.productions)
    {γ ω : List Nat} {p : Production} {d : Nat} (hopen : g.Open γ p d ω) {stack r x s z y : List Nat}
    (hσ : g.Spells stack γ) (hx : g.Yields γ.reverse r x) (hz : g.Yields (p.rhs.drop d ++ ω) s z)
    (hy : Lookahead.ofInput y = .ofInput z) :
    Runs g a (moment [0] [] (x ++ y) []) (moment stack x y r.reverse) := by
  induction hopen generalizing stack r x s z y with
  | start =>
    cases hσ
    cases hx
    exact .refl _
  | @call γ ω p q d h hq hd ih =>
    obtain ⟨s₁, s₂, z₁, z₂, rfl, rfl, hcalled, hrest⟩ := hz.split
    have hcall : g.Yields (p.rhs.drop d ++ ω) (s₁ ++ q.id :: s₂) (z₁ ++ z₂) := by
      rw [Grammar.Open.drop_eq hd]
      exact .node hq hcalled hrest
    exact ih hσ hx hcall hy
  | @read γ ω p d X h hd ih =>
    cases hσ with
    | push hσ hs ht =>
      rw [List.reverse_cons] at hx
      obtain ⟨r₁, r₂, x₁, x₂, rfl, rfl, h₁, h₂⟩ := hx.split
      have hdrop : p.rhs.drop d = [X] ++ p.rhs.drop (d + 1) := Grammar.Open.drop_eq hd
      have hboth : g.Yields (p.rhs.drop d ++ ω) (r₂ ++ s) (x₂ ++ z) := by
        rw [hdrop, List.append_assoc]
        exact h₂.append hz
      have hbefore := ih hσ h₁ hboth (Lookahead.ofInput_append hy x₂)
      obtain ⟨stack', hσ', hruns⟩ := runs_of_yields ha hf h₂ h hdrop hz hy hσ x₁ r₁.reverse
      obtain rfl := hσ'.unique (hσ.push hs ht)
      simpa using hbefore.trans hruns

end Config

/-- A run on a sentence reports the productions of its parse. -/
theorem Progress.run_of_yields (ha : Automaton.build g f = .ok a) (hf : f.Closed g g.productions)
    {r w : List Nat} (h : g.Yields [g.start] r w) :
    ∃ o, (∃ fuel, run g a fuel (start g a w) = some o) ∧ o.result = .ok r := by
  rw [start_eq_running (Automaton.exists_accepting ha) h.isTerminalString.readable]
  obtain ⟨stack, hσ, hruns⟩ := Config.runs_of_yields ha hf h (v := []) .start rfl .nil rfl
    .bottom [] []
  obtain ⟨s, below, st, rfl, hs⟩ := hσ.exists_top
  have hopen : g.Open [g.start] g.startProduction 1 [] := .read .start rfl
  have haccept := Automaton.action?_accept ha hs (hopen.itemAt_mem hσ hs)
  have hend : ∃ fuel, run g a fuel (.running (Config.moment (s :: below) w [] r.reverse)) =
      some ⟨.ok r, (Config.moment (s :: below) w [] r.reverse).stats, s :: below⟩ := by
    use 1
    rw [run, Config.step_accept haccept, run_ended, List.reverse_reverse]
  exact ⟨_, exists_run_of_runs (by simpa using hruns) hend, rfl⟩

/-- With the tables of a grammar, the recognizer accepts each string of terminals that the start symbol
derives. -/
theorem recognize_complete {t : Tables} (ht : Tables.build g = .ok t) {w : List Nat}
    (hw : g.IsTerminalString w) (hd : g.Derives [g.start] w) (states : List Nat) (stats : Stats) :
    ∃ fuel r after,
      (⟨t.grammar, t.automaton, states, stats⟩ : Recognizer).recognize fuel w = some (.ok r, after) := by
  obtain ⟨hg, ha⟩ := Tables.build_eq_ok ht
  obtain ⟨r, hr⟩ := (Grammar.derives_iff_yields hw).mp hd
  obtain ⟨o, ⟨fuel, hrun⟩, hresult⟩ :=
    Progress.run_of_yields ha (Facts.closed_ofGrammar g) hr
  rw [← hg] at hrun
  exact ⟨fuel, r, _, Recognizer.recognize_eq_some.mpr ⟨o, hrun, hresult, rfl⟩⟩

/-- The recognizer of a grammar with a useless rule accepts `aabb`. -/
theorem recognize_complete_balanced : ∃ t, Tables.build .balanced = .ok t ∧
    Grammar.balanced.IsTerminalString [3, 3, 4, 4] ∧
      Grammar.balanced.Derives [0] [3, 3, 4, 4] ∧ ∃ fuel r after,
        (⟨t.grammar, t.automaton, [], .zero⟩ : Recognizer).recognize fuel [3, 3, 4, 4] =
          some (.ok r, after) := by
  have hbuild : (Tables.build .balanced).toOption.isSome = true := by decide +kernel
  obtain ⟨t, ht⟩ := Option.isSome_iff_exists.mp hbuild
  have ht := eq_ok_of_toOption ht
  have hw : Grammar.balanced.IsTerminalString [3, 3, 4, 4] := by
    rw [Grammar.IsTerminalString]
    decide
  have hp : ⟨1, 0, [3, 0, 4], []⟩ ∈ Grammar.balanced.productions := by decide
  have hd : Grammar.balanced.Derives [0] [3, 3, 4, 4] := by
    apply Relation.ReflTransGen.head ⟨_, hp, [], [], rfl, rfl⟩
    apply Relation.ReflTransGen.head ⟨_, hp, [3], [4], rfl, rfl⟩
    exact .single ⟨⟨2, 0, [], []⟩, by decide, [3, 3], [4, 4], rfl, rfl⟩
  exact ⟨t, ht, hw, hd, recognize_complete ht hw hd [] .zero⟩

end SimpleLR
