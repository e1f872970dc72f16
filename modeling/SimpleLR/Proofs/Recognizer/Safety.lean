import SimpleLR.Proofs.Automaton.Cells
import SimpleLR.Proofs.Facts.Least
import SimpleLR.Proofs.Recognizer.Completeness
import SimpleLR.Proofs.Recognizer.Soundness

/-!
# Safety of the recognizer

With the tables of a grammar, whatever a run looks up is there, at every moment of it. A run fails only
for the sake of its input: because of a code that is not that of a terminal, or of a lookahead that is not
expected. Production 0, by which nothing could be reduced, has a cell for the end of the input only, where
the run accepts.
-/
namespace SimpleLR

variable {g : Grammar} {f : Facts} {a : Automaton}

namespace Grammar.Spells

variable {stack γ : List Nat}

theorem exists_state (h : g.Spells stack γ) : ∀ s ∈ stack, ∃ st, g.states[s]? = some st := by
  induction h with
  | bottom =>
    intro s hs
    obtain rfl := List.mem_singleton.mp hs
    obtain ⟨st, hst, -⟩ := g.states_zero
    exact ⟨st, hst⟩
  | push _ hr ht ih =>
    intro s hs
    rcases List.mem_cons.mp hs with rfl | hs
    · obtain ⟨st, hst, -⟩ := states_target hr ht
      exact ⟨st, hst⟩
    · exact ih s hs

/-- State 0 is at the bottom. -/
theorem getLast?_eq (h : g.Spells stack γ) : stack.getLast? = some 0 := by
  induction h with
  | bottom => rfl
  | push _ _ _ ih => rw [List.getLast?_cons_cons, ih]

end Grammar.Spells

/-- The production of an item of the grammar and all symbols of it have their places. -/
theorem Item.BelongsTo.exists_production {i : Item} (hi : i.BelongsTo g) :
    ∃ p, g.production? i.production = some p ∧ ∀ c ∈ i.lhs :: p.lhs :: p.rhs, c < g.symbolCount := by
  obtain ⟨p, hp, d, -, rfl⟩ := hi
  have hlhs : p.lhs < g.symbolCount := Grammar.lhs_lt_symbolCount hp
  use p, Grammar.production?_id hp
  simp only [Production.itemAt_lhs, List.forall_mem_cons]
  exact ⟨hlhs, hlhs, fun c hc => (Grammar.rhs_lt hp hc).1⟩

namespace Config

/-- All that can be looked up at a moment is there: the states of the stack with a target for each symbol
and a cell for the lookahead, the lookahead among the symbols, and the production of what is in the cell
with all symbols of it. -/
structure InRange (g : Grammar) (a : Automaton) (c : Config) : Prop where
  targets : ∀ s ∈ c.stack, ∃ st, a.states[s]? = some st ∧ st.targets.size = g.symbolCount
  cells : ∀ s ∈ c.stack, ∃ row, a.reduces.rows[s]? = some row ∧
    c.lookahead.column a.reduces.symbolCount < row.size
  lookahead : c.lookahead.Below g.symbolCount
  item : ∀ s ∈ c.stack, ∀ i, a.reduces.get? s c.lookahead = some i →
    ∃ p, g.production? i.production = some p ∧
      ∀ code ∈ i.lhs :: p.lhs :: p.rhs, code < g.symbolCount

theorem Valid.inRange (ha : Automaton.build g f = .ok a) {stack γ x y reduced : List Nat}
    (hv : Valid g stack γ x y reduced) : (moment stack x y reduced).InRange g a := by
  obtain ⟨hr, hstates, -⟩ := Automaton.build_eq_ok ha
  have hla : (Lookahead.ofInput y).Below g.symbolCount := fun c hc =>
    (Grammar.mem_terminals.mp (hv.readable c hc)).2
  constructor
  · intro s hs
    obtain ⟨st, hst⟩ := hv.spells.exists_state s hs
    exact ⟨st, hstates ▸ hst, Grammar.states_targets_size hst⟩
  · intro s hs
    obtain ⟨st, hst⟩ := hv.spells.exists_state s hs
    have hlt : s < a.reduces.rows.size :=
      ReduceTable.build_size hr ▸ (Array.getElem?_eq_some_iff.mp hst).1
    refine ⟨_, Array.getElem?_eq_getElem hlt, ?_⟩
    rw [ReduceTable.row_size hr (Array.getElem_mem hlt), (ReduceTable.build_rows hr).1]
    exact Nat.lt_succ_of_le hla.column_le
  · exact hla
  · intro s hs i hi
    obtain ⟨st, hst, hmem, -⟩ := ReduceTable.mem_of_get? hr hi
    exact (Grammar.states_belongsTo hst hmem).exists_production

/-- Production 0 is not reduced by while there is input left. -/
theorem Valid.not_stuck (ha : Automaton.build g (Facts.ofGrammar g) = .ok a)
    {s : Nat} {below γ x y reduced : List Nat} (hv : Valid g (s :: below) γ x y reduced)
    (hy : y ≠ []) : a.reduces.get? s (.ofInput y) ≠ some g.acceptItem := by
  intro h
  obtain ⟨st, hst⟩ := hv.spells.exists_state s List.mem_cons_self
  have hcandidate := ReduceTable.candidate_of_get? (Automaton.build_eq_ok ha).1 hst
    (Facts.covers_ofGrammar g) (hv.inRange ha).lookahead h
  have hend : Lookahead.ofInput y = .endOfInput := Facts.follow_augmentedStart hcandidate.2.2
  cases y with
  | nil => exact hy rfl
  | cons c y => contradiction

end Config

namespace Progress

/-- So far nothing but the input is to blame: the moment is sound, or the outcome is no failure for
another reason. -/
def Safe (g : Grammar) (input : List Nat) : Progress → Prop
  | running c => (running c).Sound g input
  | ended o => ∀ e, o.result = .error e →
      (∃ code ∈ input, code ∉ g.terminals ∧ e = .notTerminal code) ∨
        ∃ lookahead state, e = .unexpected lookahead state

theorem safe_start (ha : Automaton.build g f = .ok a) (input : List Nat) :
    (start g a input).Safe g input := by
  apply start_induction (Safe g input) (Automaton.exists_accepting ha) sound_first
  rintro c y rfl hc e he
  obtain rfl := Except.error.inj he
  exact .inl ⟨c, List.mem_cons_self, hc, rfl⟩

theorem safe_step (ha : Automaton.build g (Facts.ofGrammar g) = .ok a) {input : List Nat} {c : Config}
    (h : (running c).Safe g input) : (c.step g a).Safe g input := by
  have hsound := sound_step ha h
  obtain ⟨stack, γ, x, y, reduced, rfl, rfl, hv⟩ := h
  have hdoes := hv.does ha
  generalize (Config.moment stack x y reduced).step g a = p at hsound hdoes ⊢
  cases hdoes with
  | shift | reduce => exact hsound
  | accept => exact fun e he => by contradiction
  | @unreadable c d t y' hy hd =>
    intro e he
    obtain rfl := Except.error.inj he
    exact .inl ⟨d, by simp [hy], hd, rfl⟩
  | stuck hs hy hget =>
    subst hs
    exact absurd hget (hv.not_stuck ha hy)
  | unexpected =>
    intro e he
    obtain rfl := Except.error.inj he
    exact .inr ⟨_, _, rfl⟩

end Progress

/-- With the tables of a grammar, and after any runs before, whatever a run on any codes looks up is there
and state 0 stays at the bottom of the stack. If the run fails, it has read a code that is not that of a
terminal, or does not expect the lookahead. -/
theorem recognize_safe {t : Tables} (ht : Tables.build g = .ok t) {r : Recognizer}
    (hr : (Recognizer.new t.grammar t.automaton).Becomes r) (fuel : Nat) (input : List Nat) :
    (∀ c ∈ Progress.moments r.grammar r.automaton fuel (r.start input),
      c.InRange g r.automaton ∧ c.stack.getLast? = some 0) ∧
    ∀ e after, r.recognize fuel input = some (.error e, after) →
      (∃ code ∈ input, code ∉ g.terminals ∧ e = .notTerminal code) ∨
        ∃ lookahead state, e = .unexpected lookahead state := by
  obtain ⟨hgrammar, hautomaton⟩ := hr.same
  obtain ⟨hg, ha⟩ := Tables.build_eq_ok ht
  have hg : r.grammar = g := hgrammar.trans hg
  have ha : Automaton.build g (Facts.ofGrammar g) = .ok r.automaton := hautomaton ▸ ha
  have hstart : (r.start input).Safe g input := by
    rw [r.start_eq, hg]
    exact Progress.safe_start ha input
  have hstep : ∀ c, (Progress.running c).Safe g input → (c.step g r.automaton).Safe g input :=
    fun _ hc => Progress.safe_step ha hc
  rw [hg]
  constructor
  · intro c hc
    obtain ⟨stack, γ, x, y, reduced, rfl, -, hv⟩ :=
      Progress.moments_induction (Progress.Safe g input) hstep hstart c hc
    exact ⟨hv.inRange ha, hv.spells.getLast?_eq⟩
  · intro e after h
    obtain ⟨o, hrun, hresult, -⟩ := Recognizer.recognize_eq_some.mp h
    rw [← r.start_eq, hg] at hrun
    exact Progress.run_induction (Progress.Safe g input) hstep hstart hrun e hresult

/-- After a run on `abb`, which fails, the recognizer of the grammar `S → a S b | ε` reads `a` and then a
code past the last symbol. -/
theorem recognize_safe_balanced : ∃ t r,
    Tables.build .balanced = .ok t ∧ (Recognizer.new t.grammar t.automaton).Becomes r ∧
      r.states = [1, 0] ∧
      (∀ c ∈ Progress.moments r.grammar r.automaton 10 (r.start [3, 7]),
        c.InRange .balanced r.automaton ∧ c.stack.getLast? = some 0) ∧
      ∃ e after, r.recognize 10 [3, 7] = some (.error e, after) ∧
        ((∃ code ∈ [3, 7], code ∉ Grammar.balanced.terminals ∧ e = .notTerminal code) ∨
          ∃ lookahead state, e = .unexpected lookahead state) := by
  have hrun : ((Tables.build .balanced).toOption.bind fun t =>
      ((Recognizer.new t.grammar t.automaton).take 10 (.codes [3, 4, 4])).bind fun p =>
        (p.2.recognize 10 [3, 7]).map fun q => (p.2.states, q.1.toOption)) =
      some ([1, 0], none) := by
    decide +kernel
  obtain ⟨t, ht, hrun⟩ := Option.bind_eq_some_iff.mp hrun
  obtain ⟨⟨_, r⟩, hbefore, hrun⟩ := Option.bind_eq_some_iff.mp hrun
  obtain ⟨⟨result, after⟩, hrun, hresult⟩ := Option.map_eq_some_iff.mp hrun
  obtain ⟨hstates, hresult⟩ := Prod.mk.inj hresult
  have ht := eq_ok_of_toOption ht
  have hr : (Recognizer.new t.grammar t.automaton).Becomes r := .single ⟨10, _, _, hbefore⟩
  obtain ⟨hmoments, herrors⟩ := recognize_safe ht hr 10 [3, 7]
  cases result with
  | ok ids => contradiction
  | error e => exact ⟨t, r, ht, hr, hstates, hmoments, e, after, hrun, herrors e after hrun⟩

end SimpleLR
