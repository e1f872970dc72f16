import SimpleLR.Proofs.Recognizer.Errors
import SimpleLR.Proofs.Recognizer.Safety

/-!
# What an iteration does

With a state on top of the stack and a lookahead, a step does the same whatever else there is: what lies
below on the stack, what is left to read and what has been done before. So the step itself tells the
action of the automaton, if it is watched long enough: a shift counts as a shift, and a reduction goes
through on a stack that the automaton has built.
-/
namespace SimpleLR

variable {g : Grammar} {f : Facts} {a : Automaton} {s : Nat} {la : Lookahead}

namespace Automaton

/-- A step with the state on top of the stack and the lookahead does this, whatever else there is. -/
def Iterates (g : Grammar) (a : Automaton) (s : Nat) (la : Lookahead) (does : Config → Progress) :
    Prop :=
  ∀ c : Config, c.stack.head? = some s → c.lookahead = la → c.step g a = does c

/-- A step goes on to a state and reads. -/
def ShiftsTo (g : Grammar) (a : Automaton) (s : Nat) (la : Lookahead) (target : Nat) : Prop :=
  a.Iterates g s la (·.shift g target)

/-- A step reduces by the production with an id. -/
def ReducesBy (g : Grammar) (a : Automaton) (s : Nat) (la : Lookahead) (id : Nat) : Prop :=
  ∃ p, g.production? id = some p ∧ a.Iterates g s la (·.reduce a p)

/-- A step ends the run with the productions reduced by. -/
def AcceptsOn (g : Grammar) (a : Automaton) (s : Nat) (la : Lookahead) : Prop :=
  a.Iterates g s la fun c => c.finish (.ok c.reduced.reverse)

/-- A step ends the run because the lookahead is not expected. -/
def RefusesOn (g : Grammar) (a : Automaton) (s : Nat) (la : Lookahead) : Prop :=
  a.Iterates g s la fun c => c.finish (.error (.unexpected la s))

end Automaton

namespace Config

/-- A moment with one state on the stack and nothing left to read or done before. -/
def single (s : Nat) (la : Lookahead) : Config := ⟨[s], la, [], [], .zero⟩

/-- Does what an action says. -/
def act (g : Grammar) (a : Automaton) (s : Nat) (la : Lookahead) (c : Config) : Option Action → Progress
  | some .accept => c.finish (.ok c.reduced.reverse)
  | some (.shift target) => c.shift g target
  | some (.reduce item) =>
    match g.production? item.production with
    | none => c.finish (.error (.dangling (.production item.production)))
    | some p => c.reduce a p
  | none => c.finish (.error (.unexpected la s))

theorem step_eq_act {c : Config} (hs : c.stack.head? = some s) (hla : c.lookahead = la) :
    c.step g a = c.act g a s la (a.action? s la) := by
  obtain ⟨below, hstack⟩ := List.head?_eq_some_iff.mp hs
  subst hla
  simp only [step, hstack]
  cases a.action? s c.lookahead with
  | none => rfl
  | some action => cases action <;> rfl

theorem result_of_finish {c c' : Config} {result result' : Except RecognizeError (List Nat)}
    (h : c.finish result = c'.finish result') : result = result' :=
  congrArg Outcome.result (Progress.ended.inj h)

/-- A reduction that goes through is recorded. -/
theorem reduced_of_reduce {c c' : Config} {p : Production} (h : c.reduce a p = .running c') :
    c'.reduced = p.id :: c.reduced := by
  simp only [reduce] at h
  split at h
  · contradiction
  · split at h
    · contradiction
    · obtain rfl := Progress.running.inj h
      rfl

/-- A reduction ends a run neither with success nor for the sake of the lookahead. -/
theorem reduce_ne_finish {c : Config} {p : Production} {result : Except RecognizeError (List Nat)}
    (hresult : ∀ e, result = .error e → ∃ lookahead state, e = .unexpected lookahead state) :
    c.reduce a p ≠ c.finish result := by
  intro h
  simp only [reduce] at h
  split at h
  · obtain ⟨_, _, he⟩ := hresult _ (result_of_finish h).symm
    contradiction
  · split at h
    · obtain ⟨_, _, he⟩ := hresult _ (result_of_finish h).symm
      contradiction
    · contradiction

theorem act_reduce_ne_finish {c : Config} {i : Item} {result : Except RecognizeError (List Nat)}
    (hresult : ∀ e, result = .error e → ∃ lookahead state, e = .unexpected lookahead state) :
    c.act g a s la (some (.reduce i)) ≠ c.finish result := by
  rw [act]
  split
  · intro h
    obtain ⟨_, _, he⟩ := hresult _ (result_of_finish h).symm
    contradiction
  · exact reduce_ne_finish hresult

/-- On one state, only a shift counts as one. -/
theorem single_act_eq_shift {action : Option Action} {t : Nat}
    (h : (single s la).act g a s la action = (single s la).shift g t) :
    action = some (.shift t) := by
  have hone : ((single s la).act g a s la action).stats.shifts = 1 := congrArg (·.stats.shifts) h
  cases action with
  | none => contradiction
  | some action =>
    cases action with
    | accept => contradiction
    | shift t' =>
      have hstack := congrArg Config.stack (Progress.running.inj h)
      rw [(List.cons.inj hstack).1]
    | reduce i =>
      simp only [act] at hone
      split at hone
      · contradiction
      · rw [shifts_reduce] at hone
        contradiction

theorem single_act_eq_accept {action : Option Action}
    (h : (single s la).act g a s la action = (single s la).finish (.ok [])) :
    action = some .accept := by
  cases action with
  | none =>
    have := result_of_finish h
    contradiction
  | some action =>
    cases action with
    | accept => rfl
    | shift t => contradiction
    | reduce i => exact absurd h (act_reduce_ne_finish fun e he => by contradiction)

theorem single_act_eq_refuse {action : Option Action}
    (h : (single s la).act g a s la action = (single s la).finish (.error (.unexpected la s))) :
    action = none := by
  cases action with
  | none => rfl
  | some action =>
    cases action with
    | accept =>
      have := result_of_finish h
      contradiction
    | shift t => contradiction
    | reduce i =>
      exact absurd h (act_reduce_ne_finish fun e he => ⟨la, s, (Except.error.inj he).symm⟩)

theorem single_act_eq_reduce {action : Option Action} {p : Production}
    (h : (single s la).act g a s la action = (single s la).reduce a p) :
    ∃ i, action = some (.reduce i) := by
  cases action with
  | none =>
    exact absurd h.symm (reduce_ne_finish fun e he => ⟨la, s, (Except.error.inj he).symm⟩)
  | some action =>
    cases action with
    | accept => exact absurd h.symm (reduce_ne_finish fun e he => by contradiction)
    | shift t =>
      have hzero : ((single s la).shift g t).stats.shifts = 0 := by
        rw [show (single s la).shift g t = _ from h, shifts_reduce]
        rfl
      contradiction
    | reduce i => exact ⟨i, rfl⟩

end Config

namespace Automaton

open Config

theorem iterates_of_action? {action : Option Action} (h : a.action? s la = action) :
    a.Iterates g s la fun c => c.act g a s la action := by
  intro c hs hla
  rw [step_eq_act hs hla, h]

theorem Iterates.single_act {does : Config → Progress} (h : a.Iterates g s la does) :
    (single s la).act g a s la (a.action? s la) = does (single s la) := by
  have hstep : (single s la).step g a = (single s la).act g a s la (a.action? s la) :=
    step_eq_act rfl rfl
  rw [← hstep]
  exact h _ rfl rfl

theorem shiftsTo_iff {t : Nat} : a.ShiftsTo g s la t ↔ a.action? s la = some (.shift t) :=
  ⟨fun h => single_act_eq_shift h.single_act, fun h => iterates_of_action? h⟩

theorem acceptsOn_iff : a.AcceptsOn g s la ↔ a.action? s la = some .accept :=
  ⟨fun h => single_act_eq_accept h.single_act, fun h => iterates_of_action? h⟩

theorem refusesOn_iff : a.RefusesOn g s la ↔ a.action? s la = none :=
  ⟨fun h => single_act_eq_refuse h.single_act, fun h => iterates_of_action? h⟩

/-- On a stack that the automaton has built, a reduction by a complete item goes through, unless that is
the item of production 0. -/
theorem exists_reduce_running (ha : build g f = .ok a) {st : State} (hs : g.states[s]? = some st)
    {p : Production} (hp : p ∈ g.productions) (h0 : p ≠ g.startProduction)
    (hi : p.itemAt p.rhs.length ∈ st.items) (la : Lookahead) :
    ∃ c c' : Config, c.stack.head? = some s ∧ c.lookahead = la ∧ c.reduce a p = .running c' := by
  obtain ⟨below, γ, hσ⟩ := Grammar.exists_spells hs
  obtain ⟨q, e, ω, hpq, hopen⟩ := hσ.exists_open hs hi
  obtain ⟨rfl, rfl⟩ := (Production.itemAt_inj hp hopen.mem).mp hpq
  obtain ⟨γ', top, under, st', t, -, hdrop, -, hst', ht⟩ := hopen.exists_goto h0 hσ
  use ⟨s :: below, la, [], [], .zero⟩
  simp [reduce, hdrop, transition?_eq ha hst', ht]

section

variable (ha : build g (Facts.ofGrammar g) = .ok a) {st : State} (hs : g.states[s]? = some st)
  (hla : la ∈ Follow.lookaheads g)

include ha hs hla

/-- What is reduced by is a production of the grammar other than production 0. -/
theorem exists_production_of_reduce {i : Item} (h : a.action? s la = some (.reduce i)) :
    ∃ p ∈ g.productions, p ≠ g.startProduction ∧ i = p.itemAt p.rhs.length ∧ i ∈ st.items := by
  obtain ⟨hi, hc, hget, hno⟩ := of_action?_reduce ha hs h
  obtain ⟨p, hp, d, -, rfl⟩ := Grammar.states_belongsTo hs hi
  obtain rfl := (Production.itemAt_isComplete hp d).mp hc
  refine ⟨p, hp, ?_, rfl, hi⟩
  rintro rfl
  have hcandidate := ReduceTable.candidate_of_get? (build_eq_ok ha).1 hs (Facts.covers_ofGrammar g)
    (Follow.below_of_mem_lookaheads hla) hget
  exact hno ⟨Facts.follow_augmentedStart hcandidate.2.2, hi⟩

theorem reducesBy_iff {id : Nat} :
    a.ReducesBy g s la id ↔ ∃ i, a.action? s la = some (.reduce i) ∧ i.production = id := by
  constructor
  · rintro ⟨p, hp, h⟩
    obtain ⟨i, hi⟩ := single_act_eq_reduce h.single_act
    refine ⟨i, hi, ?_⟩
    -- The reduction by the item and the one by the production are the same where the former goes through.
    obtain ⟨q, hq, h0, rfl, hmem⟩ := exists_production_of_reduce ha hs hla hi
    obtain ⟨c, c', hhead, hc, hrun⟩ := exists_reduce_running ha hs hq h0 hmem la
    have hact : c.step g a = c.act g a s la (some (.reduce (q.itemAt q.rhs.length))) :=
      iterates_of_action? hi c hhead hc
    have hstep : c.reduce a q = c.reduce a p := by
      refine Eq.trans ?_ (hact.symm.trans (h c hhead hc))
      simp only [act, Production.itemAt_production, Grammar.production?_id hq]
    have hids := reduced_of_reduce hrun
    rw [reduced_of_reduce (hstep ▸ hrun)] at hids
    rw [Production.itemAt_production, ← (List.cons.inj hids).1, Grammar.id_of_production? hp]
  · rintro ⟨i, hi, rfl⟩
    obtain ⟨q, hq, -, rfl, -⟩ := exists_production_of_reduce ha hs hla hi
    refine ⟨q, Grammar.production?_id hq, fun c hhead hc => ?_⟩
    rw [iterates_of_action? hi c hhead hc]
    simp only [act, Production.itemAt_production, Grammar.production?_id hq]

end

end Automaton

end SimpleLR
