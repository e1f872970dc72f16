import SimpleLR.Proofs.Recognizer.Completeness
import SimpleLR.Proofs.Recognizer.Soundness

/-!
# What a recognizer accepts

With the tables of a grammar, a recognizer accepts an input with some productions just when these are a
parse of the input as the start symbol.
-/
namespace SimpleLR

/-- A run on the input ends with success and reports the productions. -/
def Recognizer.Accepts (r : Recognizer) (input ids : List Nat) : Prop :=
  ∃ fuel after, r.recognize fuel input = some (.ok ids, after)

/-- The recognizer of some tables, whatever it has run on before. -/
def Tables.recognizer (t : Tables) (states : List Nat) (stats : Stats) : Recognizer :=
  ⟨t.grammar, t.automaton, states, stats⟩

theorem Tables.accepts_iff {g : Grammar} {t : Tables} (ht : build g = .ok t) {states : List Nat}
    {stats : Stats} {w r : List Nat} :
    (t.recognizer states stats).Accepts w r ↔ g.Yields [g.start] r w := by
  obtain ⟨rfl, ha⟩ := build_eq_ok ht
  constructor
  · rintro ⟨fuel, after, h⟩
    obtain ⟨o, hrun, hresult, -⟩ := Recognizer.recognize_eq_some.mp h
    exact Progress.run_induction (Progress.Sound t.grammar w) (fun _ => Progress.sound_step ha)
      (Progress.sound_start ha w) hrun r hresult
  · intro h
    obtain ⟨o, ⟨fuel, hrun⟩, hresult⟩ := Progress.run_of_yields ha (Facts.closed_ofGrammar _) h
    exact ⟨fuel, _, Recognizer.recognize_eq_some.mpr ⟨o, hrun, hresult, rfl⟩⟩

/-- The grammar `S → a S b | ε` has tables that accept `a b`. -/
theorem Grammar.balanced_accepts : ∃ t, Tables.build .balanced = .ok t ∧
    (t.recognizer [] .zero).Accepts [3, 4] [2, 1] := by
  have hbuild : ((Tables.build .balanced).toOption.bind fun t =>
      ((t.recognizer [] .zero).recognize 10 [3, 4]).map fun p => p.1.toOption) = some (some [2, 1]) := by
    decide +kernel
  obtain ⟨t, ht, hrun⟩ := Option.bind_eq_some_iff.mp hbuild
  obtain ⟨⟨result, after⟩, hrun, hresult⟩ := Option.map_eq_some_iff.mp hrun
  obtain rfl : result = .ok [2, 1] := eq_ok_of_toOption hresult
  exact ⟨t, eq_ok_of_toOption ht, 10, after, hrun⟩

end SimpleLR
