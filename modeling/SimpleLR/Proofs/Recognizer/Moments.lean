import SimpleLR.Proofs.Derivation
import SimpleLR.Proofs.Facts.Lookaheads
import SimpleLR.Recognizer.Session

/-!
# Moments of a run

A moment is known by the stack, by what has been shifted of the input and what has not, and by the
productions reduced by; these also say what the counters show. A run leads from moment to moment, and
its outcome does not depend on how much fuel it is given.
-/
namespace SimpleLR

variable {g : Grammar} {a : Automaton}

/-- The next code of an input, if there is one, is that of a terminal. -/
def Grammar.Readable (g : Grammar) (y : List Nat) : Prop :=
  ∀ c, Lookahead.ofInput y = .terminal c → c ∈ g.terminals

theorem Grammar.readable_nil : g.Readable [] := fun _ h => by contradiction

theorem Grammar.readable_cons {c : Nat} {y : List Nat} :
    g.Readable (c :: y) ↔ c ∈ g.terminals := by
  simp [Readable, Lookahead.ofInput]

theorem Grammar.readable_or (y : List Nat) :
    g.Readable y ∨ ∃ c y', y = c :: y' ∧ c ∉ g.terminals := by
  cases y with
  | nil => exact .inl readable_nil
  | cons c y =>
    rw [readable_cons]
    by_cases hc : c ∈ g.terminals
    · exact .inl hc
    · exact .inr ⟨c, y, rfl, hc⟩

theorem Grammar.IsTerminalString.readable {y : List Nat} (h : g.IsTerminalString y) :
    g.Readable y := by
  cases y with
  | nil => exact readable_nil
  | cons c y => exact readable_cons.mpr (h c List.mem_cons_self)

namespace Config

/-- The moment at which `x` has been shifted, while `y` is left and its first code has been read. -/
def moment (stack x y reduced : List Nat) : Config where
  stack := stack
  lookahead := .ofInput y
  rest := y.tail
  reduced := reduced
  stats := ⟨x.length + (y.take 1).length, x.length, reduced.length⟩

/-- The moment before, when the first code of `y` has yet to be read. -/
def unread (stack x y reduced : List Nat) (lookahead : Lookahead) : Config where
  stack := stack
  lookahead := lookahead
  rest := y
  reduced := reduced
  stats := ⟨x.length, x.length, reduced.length⟩

variable {stack x y reduced : List Nat} {lookahead : Lookahead}

theorem isTerminal_iff_mem_terminals {c : Nat} :
    (g.isTerminal c && c < g.symbolCount) = true ↔ c ∈ g.terminals := by
  simp [Grammar.isTerminal, Grammar.mem_terminals]

theorem read_eq_running (hy : g.Readable y) :
    (unread stack x y reduced lookahead).read g = .running (moment stack x y reduced) := by
  cases y with
  | nil => rfl
  | cons c y =>
    have hc := isTerminal_iff_mem_terminals.mpr (Grammar.readable_cons.mp hy)
    simp only [read, unread, if_pos hc]
    rfl

theorem read_eq_ended {c : Nat} (hc : c ∉ g.terminals) :
    (unread stack x (c :: y) reduced lookahead).read g =
      .ended ⟨.error (.notTerminal c), ⟨x.length, x.length, reduced.length⟩, stack⟩ := by
  have hc := mt isTerminal_iff_mem_terminals.mp hc
  simp only [read, unread, if_neg hc]
  rfl

variable {s : Nat}

theorem step_accept (h : a.action? s (.ofInput y) = some .accept) :
    (moment (s :: stack) x y reduced).step g a =
      .ended ⟨.ok reduced.reverse, (moment (s :: stack) x y reduced).stats, s :: stack⟩ := by
  have h : a.action? s (moment (s :: stack) x y reduced).lookahead = some .accept := h
  simp only [step, moment, finish] at h ⊢
  rw [h]

theorem step_unexpected (h : a.action? s (.ofInput y) = none) :
    (moment (s :: stack) x y reduced).step g a =
      .ended ⟨.error (.unexpected (.ofInput y) s), (moment (s :: stack) x y reduced).stats, s :: stack⟩ := by
  simp only [step, moment, finish]
  rw [h]

theorem step_shift {c t : Nat} (h : a.action? s (.terminal c) = some (.shift t)) :
    (moment (s :: stack) x (c :: y) reduced).step g a =
      (unread (t :: s :: stack) (x ++ [c]) y reduced (.terminal c)).read g := by
  simp only [step, moment, Lookahead.ofInput, h, shift, unread]
  congr 1
  simp

theorem step_reduce {i : Item} {p : Production}
    (h : a.action? s (.ofInput y) = some (.reduce i)) (hp : g.production? i.production = some p) :
    (moment (s :: stack) x y reduced).step g a =
      (moment (s :: stack) x y reduced).reduce a p := by
  simp only [step, moment]
  rw [h]
  simp only [hp]

theorem reduce_eq_running {p : Production} {top target : Nat} {below : List Nat}
    (hdrop : stack.drop p.rhs.length = top :: below) (ht : a.transition? top p.lhs = some target) :
    (moment stack x y reduced).reduce a p =
      .running (moment (target :: top :: below) x y (p.id :: reduced)) := by
  simp only [reduce, moment, hdrop, ht, List.length_cons]

theorem reduce_eq_ended {p : Production} {top : Nat} {below : List Nat}
    (hdrop : stack.drop p.rhs.length = top :: below) (ht : a.transition? top p.lhs = none) :
    (moment stack x y reduced).reduce a p =
      .ended ⟨.error (.noGoto p.lhs top), (moment stack x y reduced).stats, top :: below⟩ := by
  simp only [reduce, moment, hdrop, ht, finish]

/-- A run leads from one moment to another. -/
def Runs (g : Grammar) (a : Automaton) : Config → Config → Prop :=
  Relation.ReflTransGen fun c c' => c.step g a = .running c'

theorem Runs.refl (c : Config) : Runs g a c c := Relation.ReflTransGen.refl

theorem Runs.head {c c' c'' : Config} (hstep : c.step g a = .running c') (h : Runs g a c' c'') :
    Runs g a c c'' :=
  Relation.ReflTransGen.head hstep h

theorem Runs.trans {c c' c'' : Config} (h : Runs g a c c') (h' : Runs g a c' c'') :
    Runs g a c c'' :=
  Relation.ReflTransGen.trans h h'

end Config

namespace Progress

theorem start_eq_enter (h : ∃ s, a.accepting = some s) (input : List Nat) :
    start g a input = (Config.unread [] [] input [] .endOfInput).enter g := by
  obtain ⟨s, hs⟩ := h
  simp only [start, begin, hs]
  rfl

theorem start_eq_running (h : ∃ s, a.accepting = some s) {input : List Nat}
    (hinput : g.Readable input) :
    start g a input = .running (Config.moment [0] [] input []) := by
  rw [start_eq_enter h, Config.enter, Config.read_eq_running hinput]
  rfl

/-- If the first code cannot be read, nothing has been put on the stack yet. -/
theorem start_eq_ended (h : ∃ s, a.accepting = some s) {c : Nat} (hc : c ∉ g.terminals) (input : List Nat) :
    start g a (c :: input) = .ended ⟨.error (.notTerminal c), .zero, []⟩ := by
  rw [start_eq_enter h, Config.enter, Config.read_eq_ended hc]
  rfl

/-- What holds of the first moment, if there is one, and of not being able to read, holds of the beginning. -/
theorem start_induction (P : Progress → Prop) (h : ∃ s, a.accepting = some s) {input : List Nat}
    (readable : g.Readable input → P (.running (Config.moment [0] [] input [])))
    (unreadable : ∀ c y, input = c :: y → c ∉ g.terminals → P (.ended ⟨.error (.notTerminal c), .zero, []⟩)) :
    P (start g a input) := by
  rcases Grammar.readable_or input with hinput | ⟨c, y, rfl, hc⟩
  · rw [start_eq_running h hinput]
    exact readable hinput
  · rw [start_eq_ended h hc]
    exact unreadable c y rfl hc

theorem run_ended (fuel : Nat) (o : Outcome) : run g a fuel (.ended o) = some o := by
  cases fuel <;> rfl

theorem run_add {fuel : Nat} {p : Progress} {o : Outcome} (h : run g a fuel p = some o)
    (extra : Nat) : run g a (fuel + extra) p = some o := by
  induction fuel generalizing p with
  | zero =>
    cases p with
    | ended o' => rwa [run_ended] at h ⊢
    | running c => contradiction
  | succ fuel ih =>
    cases p with
    | ended o' => rwa [run_ended] at h ⊢
    | running c =>
      rw [Nat.succ_add]
      exact ih h

/-- Whatever the fuel, a run that ends has one outcome. -/
theorem run_unique {fuel fuel' : Nat} {p : Progress} {o o' : Outcome}
    (h : run g a fuel p = some o) (h' : run g a fuel' p = some o') : o = o' := by
  have h₁ := run_add h fuel'
  have h₂ := run_add h' fuel
  rw [Nat.add_comm, h₁] at h₂
  exact Option.some.inj h₂

/-- What every step keeps of the moments, and makes of the outcome, holds of the outcome. -/
theorem run_induction (P : Progress → Prop) (step : ∀ c, P (.running c) → P (c.step g a))
    {fuel : Nat} {p : Progress} {o : Outcome} (hp : P p) (h : run g a fuel p = some o) :
    P (.ended o) :=
  ((passes_of_run h).induction P step hp).2

/-- What every step keeps holds at every moment, whether the run comes to its end or not. -/
theorem moments_induction (P : Progress → Prop) (step : ∀ c, P (.running c) → P (c.step g a))
    {fuel : Nat} {p : Progress} (hp : P p) : ∀ c ∈ moments g a fuel p, P (.running c) := by
  cases h : run g a fuel p with
  | some o => exact ((passes_of_run h).induction P step hp).1
  | none =>
    obtain ⟨-, p', hpasses⟩ := passes_of_run_eq_none h
    exact (hpasses.induction P step hp).1

/-- A run comes to its end if it does so from a moment that it leads to. -/
theorem exists_run_of_runs {c c' : Config} (h : Config.Runs g a c c') {o : Outcome}
    (hrun : ∃ fuel, run g a fuel (.running c') = some o) :
    ∃ fuel, run g a fuel (.running c) = some o := by
  induction h using Relation.ReflTransGen.head_induction_on with
  | refl => exact hrun
  | head hstep _ ih =>
    obtain ⟨fuel, hfuel⟩ := ih
    use fuel + 1
    rw [run, hstep]
    exact hfuel

end Progress

namespace Recognizer

/-- Runs that came to their end, on any inputs, have made one recognizer of the other. -/
def Becomes : Recognizer → Recognizer → Prop :=
  Relation.ReflTransGen fun r r' => ∃ fuel input result, r.take fuel input = some (result, r')

theorem recognize_eq_some {r r' : Recognizer} {fuel : Nat} {input : List Nat}
    {result : Except RecognizeError (List Nat)} :
    r.recognize fuel input = some (result, r') ↔
      ∃ o, Progress.run r.grammar r.automaton fuel (.start r.grammar r.automaton input) = some o ∧
        o.result = result ∧ { r with states := o.stack, stats := o.stats } = r' := by
  simp [recognize, start_eq]

theorem same_of_take {r r' : Recognizer} {fuel : Nat} {input : Input}
    {result : Except RecognizeError (List Nat)} (h : r.take fuel input = some (result, r')) :
    r'.grammar = r.grammar ∧ r'.automaton = r.automaton := by
  rw [take] at h
  split at h
  · obtain ⟨o, -, -, rfl⟩ := recognize_eq_some.mp h
    exact ⟨rfl, rfl⟩
  · obtain ⟨-, rfl⟩ := Prod.mk.inj (Option.some.inj h)
    exact ⟨rfl, rfl⟩

/-- Runs leave the grammar and the automaton as they are. -/
theorem Becomes.same {r r' : Recognizer} (h : r.Becomes r') :
    r'.grammar = r.grammar ∧ r'.automaton = r.automaton := by
  induction h with
  | refl => exact ⟨rfl, rfl⟩
  | tail _ hrun ih =>
    obtain ⟨_, _, _, htake⟩ := hrun
    obtain ⟨hg, ha⟩ := same_of_take htake
    exact ⟨hg.trans ih.1, ha.trans ih.2⟩

end Recognizer

end SimpleLR
