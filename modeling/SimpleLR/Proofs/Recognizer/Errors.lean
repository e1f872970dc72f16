import SimpleLR.Proofs.Recognizer.Termination

/-!
# Errors of the recognizer

The outcome of a run is settled by what it has shifted and by the code that comes next: an input that goes
on differently behind that code has the same outcome. So an error is not reported too early, as the run on
a sentence with the same beginning would have ended there as well. Nor is it reported too late, as what
has been shifted is the beginning of a sentence where all reachable nonterminals are productive.
-/
namespace SimpleLR

variable {g : Grammar} {f : Facts} {a : Automaton}

theorem Lookahead.eq_cons_of_ofInput {z : List Nat} {c : Nat} (h : ofInput z = .terminal c) :
    ∃ z', z = c :: z' := by
  cases z with
  | nil => contradiction
  | cons d z' => exact ⟨z', by rw [Lookahead.terminal.inj h]⟩

namespace Progress

/-- The same progress with something else left to read. -/
def withRest (rest : List Nat) : Progress → Progress
  | running c => running { c with rest := rest }
  | ended o => ended o

def stats : Progress → Stats
  | running c => c.stats
  | ended o => o.stats

end Progress

namespace Config

theorem reduce_withRest (c : Config) (p : Production) (rest : List Nat) :
    ({ c with rest := rest } : Config).reduce a p = (c.reduce a p).withRest rest := by
  simp only [reduce]
  split
  · rfl
  · split <;> rfl

theorem shifts_reduce (c : Config) (p : Production) :
    (c.reduce a p).stats.shifts = c.stats.shifts := by
  simp only [reduce]
  split
  · rfl
  · split <;> rfl

/-- A step that does not shift takes no notice of what is left to read, and counts no shift. -/
theorem step_withRest {c : Config} {s : Nat} {below : List Nat} (hs : c.stack = s :: below)
    (h : ∀ t, a.action? s c.lookahead ≠ some (.shift t)) :
    (c.step g a).stats.shifts = c.stats.shifts ∧
      ∀ rest, ({ c with rest := rest } : Config).step g a = (c.step g a).withRest rest := by
  have hfinish : ∀ result rest, ({ c with stack := s :: below, rest := rest } : Config).finish result =
      (c.finish result).withRest rest := by
    intro result rest
    simp [finish, Progress.withRest, hs]
  simp only [step, hs]
  split
  · exact ⟨rfl, hfinish _⟩
  · rename_i t haction
    exact absurd haction (h t)
  · split
    · exact ⟨rfl, hfinish _⟩
    · exact ⟨shifts_reduce c _, fun rest => by rw [← reduce_withRest, hs]⟩
  · exact ⟨rfl, hfinish _⟩

variable {stack x y z reduced input : List Nat}

theorem moment_withRest (h : Lookahead.ofInput z = .ofInput y) :
    { moment stack x y reduced with rest := z.tail } = moment stack x z reduced := by
  cases y with
  | nil =>
    cases z with
    | nil => rfl
    | cons d z => contradiction
  | cons c y =>
    obtain ⟨z, rfl⟩ := Lookahead.eq_cons_of_ofInput h
    rfl

/-- A run on an input gets to a moment. -/
def Reaches (g : Grammar) (a : Automaton) (input : List Nat) (c : Config) : Prop :=
  ∃ c₀, Progress.start g a input = .running c₀ ∧ Runs g a c₀ c

theorem Reaches.step {c c' : Config} (h : Reaches g a input c) (hstep : c.step g a = .running c') :
    Reaches g a input c' := by
  obtain ⟨c₀, hstart, hruns⟩ := h
  exact ⟨c₀, hstart, hruns.trans (.head hstep (.refl c'))⟩

theorem Reaches.run {c : Config} {o : Outcome} (h : Reaches g a input c)
    (hstep : c.step g a = .ended o) :
    ∃ fuel, Progress.run g a fuel (.start g a input) = some o := by
  obtain ⟨c₀, hstart, hruns⟩ := h
  rw [hstart]
  apply Progress.exists_run_of_runs hruns
  use 1
  rw [Progress.run, hstep, Progress.run_ended]

end Config

namespace Progress

/-- A run on any input that begins alike, up to the next code, gets just as far. -/
def Settled (g : Grammar) (a : Automaton) (input : List Nat) : Progress → Prop
  | running c => ∃ stack γ x y reduced, c = Config.moment stack x y reduced ∧ x ++ y = input ∧
      Config.Valid g stack γ x y reduced ∧ ∀ z, Lookahead.ofInput z = .ofInput y →
        Config.Reaches g a (x ++ z) (Config.moment stack x z reduced)
  | ended o => ∃ stack γ x y r, o.stats.shifts = x.length ∧ x ++ y = input ∧
      g.Spells stack γ ∧ g.Yields γ.reverse r x ∧ ∀ z, Lookahead.ofInput z = .ofInput y →
        ∃ fuel, run g a fuel (start g a (x ++ z)) = some o

theorem settled_start (ha : Automaton.build g f = .ok a) (input : List Nat) :
    (start g a input).Settled g a input := by
  have hacc := Automaton.exists_accepting ha
  rcases Grammar.readable_or input with hinput | ⟨c, input, rfl, hc⟩
  · rw [start_eq_running hacc hinput]
    refine ⟨[0], [], [], input, [], rfl, rfl, ⟨.bottom, .nil, hinput⟩, fun z hz => ?_⟩
    have hz : g.Readable z := fun c hc => hinput c (hz ▸ hc)
    exact ⟨_, start_eq_running hacc hz, .refl _⟩
  · rw [start_eq_ended hacc hc]
    refine ⟨[0], [], [], c :: input, [], rfl, rfl, .bottom, .nil, fun z hz => ?_⟩
    obtain ⟨z, rfl⟩ := Lookahead.eq_cons_of_ofInput hz
    use 0
    rw [List.nil_append, start_eq_ended hacc hc, run_ended]

section

variable {γ x y reduced below : List Nat} {s : Nat} {st : State}
  (hv : Config.Valid g (s :: below) γ x y reduced)
  (halike : ∀ z, Lookahead.ofInput z = .ofInput y →
    Config.Reaches g a (x ++ z) (Config.moment (s :: below) x z reduced))

include hv halike

theorem settled_shift (ha : Automaton.build g f = .ok a) (hs : g.states[s]? = some st) {t : Nat}
    (h : a.action? s (.ofInput y) = some (.shift t)) :
    ((Config.moment (s :: below) x y reduced).step g a).Settled g a (x ++ y) := by
  obtain ⟨c, hc, ht⟩ := Automaton.of_action?_shift ha hs h
  obtain ⟨y, rfl⟩ := Lookahead.eq_cons_of_ofInput hc
  have hspells := hv.spells.push hs ht
  have hyields := hv.yields.shift (Grammar.readable_cons.mp hv.readable)
  rw [Config.step_shift h]
  rcases Grammar.readable_or y with hy | ⟨d, y, rfl, hd⟩
  · rw [Config.read_eq_running hy]
    refine ⟨_, _, _, y, _, rfl, by simp, ⟨hspells, hyields, hy⟩, fun z hz => ?_⟩
    have hz : g.Readable z := fun c hc => hy c (hz ▸ hc)
    have hstep : (Config.moment (s :: below) x (c :: z) reduced).step g a =
        .running (Config.moment (t :: s :: below) (x ++ [c]) z reduced) := by
      rw [Config.step_shift h, Config.read_eq_running hz]
    simpa using (halike (c :: z) rfl).step hstep
  · rw [Config.read_eq_ended hd]
    refine ⟨_, _, x ++ [c], d :: y, _, rfl, by simp, hspells, hyields, fun z hz => ?_⟩
    obtain ⟨z, rfl⟩ := Lookahead.eq_cons_of_ofInput hz
    have hstep : (Config.moment (s :: below) x (c :: d :: z) reduced).step g a =
        .ended ⟨.error (.notTerminal d), ⟨(x ++ [c]).length, (x ++ [c]).length, reduced.length⟩,
          t :: s :: below⟩ := by
      rw [Config.step_shift h, Config.read_eq_ended hd]
    simpa using (halike (c :: d :: z) rfl).run hstep

theorem settled_unshifted (ha : Automaton.build g f = .ok a)
    (h : ∀ t, a.action? s (.ofInput y) ≠ some (.shift t)) :
    ((Config.moment (s :: below) x y reduced).step g a).Settled g a (x ++ y) := by
  obtain ⟨hshifts, hrest⟩ :=
    Config.step_withRest (c := .moment (s :: below) x y reduced) (g := g) rfl h
  have hstep : ∀ z, Lookahead.ofInput z = .ofInput y →
      (Config.moment (s :: below) x z reduced).step g a =
        ((Config.moment (s :: below) x y reduced).step g a).withRest z.tail := by
    intro z hz
    rw [← hrest, Config.moment_withRest hz]
  have hdoes := hv.does ha
  generalize (Config.moment (s :: below) x y reduced).step g a = p at hdoes hshifts hstep ⊢
  cases hdoes with
  -- The number of shifts would have grown.
  | shift | unreadable => simp [stats, Config.moment] at hshifts
  | reduce hp hγ hv' =>
    refine ⟨_, _, x, y, _, rfl, rfl, hv', fun z hz => ?_⟩
    apply (halike z hz).step
    rw [hstep z hz, withRest, Config.moment_withRest hz]
  | stuck | accept | unexpected =>
    exact ⟨_, γ, x, y, _, rfl, rfl, hv.spells, hv.yields, fun z hz =>
      (halike z hz).run (hstep z hz)⟩

end

theorem settled_step (ha : Automaton.build g f = .ok a) {input : List Nat} {c : Config}
    (h : (running c).Settled g a input) : (c.step g a).Settled g a input := by
  obtain ⟨stack, γ, x, y, reduced, rfl, rfl, hv, halike⟩ := h
  obtain ⟨s, below, st, rfl, hs⟩ := hv.spells.exists_top
  by_cases hshift : ∃ t, a.action? s (.ofInput y) = some (.shift t)
  · obtain ⟨t, haction⟩ := hshift
    exact settled_shift hv halike ha hs haction
  · exact settled_unshifted hv halike ha (not_exists.mp hshift)

/-- What a run has shifted and the code that comes next settle its outcome. -/
theorem run_settled (ha : Automaton.build g f = .ok a) {fuel : Nat} {input : List Nat} {o : Outcome}
    (h : run g a fuel (start g a input) = some o) : (ended o).Settled g a input :=
  run_induction (Settled g a input) (fun _ hc => settled_step ha hc) (settled_start ha input) h

end Progress

/-- With the tables of a grammar in which all nonterminals that the start symbol leads to are productive,
an error is reported at the earliest possible place: what has been shifted begins a sentence, but no
sentence goes on with the next code, or the input ends there and is no sentence. -/
theorem recognize_error_earliest {t : Tables} (ht : Tables.build g = .ok t)
    (hg : ∀ c, g.isNonterminal c = true → g.Reachable c → g.Productive c) {states : List Nat} {stats : Stats}
    {fuel : Nat} {w : List Nat} {e : RecognizeError} {after : Recognizer}
    (h : (⟨t.grammar, t.automaton, states, stats⟩ : Recognizer).recognize fuel w = some (.error e, after)) :
    (∃ u, g.IsSentence u ∧ w.take after.stats.shifts <+: u) ∧
      (after.stats.shifts < w.length ∧
          (∀ u, g.IsSentence u → ¬w.take (after.stats.shifts + 1) <+: u) ∨
        after.stats.shifts = w.length ∧ ¬g.IsSentence w) := by
  obtain ⟨rfl, ha⟩ := Tables.build_eq_ok ht
  obtain ⟨o, hrun, hresult, rfl⟩ := Recognizer.recognize_eq_some.mp h
  obtain ⟨stack, γ, x, y, r, hshifts, rfl, hσ, hx, halike⟩ := Progress.run_settled ha hrun
  have hrefused : ∀ z, Lookahead.ofInput z = .ofInput y → ¬t.grammar.IsSentence (x ++ z) := by
    intro z hz hsentence
    obtain ⟨_, hyields⟩ := Grammar.isSentence_iff_yields.mp hsentence
    obtain ⟨o', ⟨_, haccept⟩, hok⟩ := Progress.run_of_yields ha (Facts.closed_ofGrammar _) hyields
    obtain ⟨_, hrun'⟩ := halike z hz
    rw [Progress.run_unique haccept hrun', hresult] at hok
    contradiction
  simp only [hshifts]
  constructor
  · obtain ⟨z, hz⟩ := Grammar.GoesOn.of_spells hg hσ hx
    exact ⟨x ++ z, Grammar.isSentence_iff_yields.mpr hz.yields, by simp⟩
  · cases y with
    | nil =>
      right
      exact ⟨by simp, hrefused [] rfl⟩
    | cons c y =>
      left
      refine ⟨by simp, fun u hu hpre => ?_⟩
      have htake : (x ++ c :: y).take (x.length + 1) = x ++ [c] := by simp [List.take_append]
      rw [htake] at hpre
      obtain ⟨v, rfl⟩ := hpre
      exact hrefused (c :: v) rfl (by simpa using hu)

/-- In `abb` the second `b` is refused: `ab` is a sentence, but none begins with `abb`. -/
theorem recognize_error_earliest_balanced : ∃ t e after,
    Tables.build .balanced = .ok t ∧
      (∀ c, Grammar.balanced.isNonterminal c = true → Grammar.balanced.Reachable c →
        Grammar.balanced.Productive c) ∧
      (⟨t.grammar, t.automaton, [], .zero⟩ : Recognizer).recognize 10 [3, 4, 4] = some (.error e, after) ∧
      (∃ u, Grammar.balanced.IsSentence u ∧ [3, 4] <+: u) ∧
      ∀ u, Grammar.balanced.IsSentence u → ¬[3, 4, 4] <+: u := by
  have hrun : ((Tables.build .balanced).toOption.bind fun t =>
      ((⟨t.grammar, t.automaton, [], .zero⟩ : Recognizer).recognize 10 [3, 4, 4]).map fun p =>
        (p.1.toOption, p.2.stats.shifts)) = some (none, 2) := by
    decide +kernel
  obtain ⟨t, ht, hrun⟩ := Option.bind_eq_some_iff.mp hrun
  obtain ⟨⟨result, after⟩, hrun, hresult⟩ := Option.map_eq_some_iff.mp hrun
  have hshifts : after.stats.shifts = 2 := (Prod.mk.inj hresult).2
  have ht := eq_ok_of_toOption ht
  have hg := Grammar.balanced_productive
  cases result with
  | ok r => simp [Except.toOption] at hresult
  | error e =>
    have hearliest := recognize_error_earliest ht hg hrun
    rw [hshifts] at hearliest
    obtain ⟨hbegins, ⟨-, hrefused⟩ | ⟨hlength, -⟩⟩ := hearliest
    · exact ⟨t, e, after, ht, hg, hrun, hbegins, hrefused⟩
    · contradiction

end SimpleLR
