import SimpleLR.Proofs.Automaton.Conflict
import SimpleLR.Proofs.Recognizer.Completeness

/-!
# Ambiguous grammars have no tables

The recognizer follows every parse of a sentence and has only one outcome, so a sentence has one parse.
A grammar that gives some string of terminals two rightmost derivations therefore has a conflict.
-/
namespace SimpleLR

variable {g : Grammar} {f : Facts} {a : Automaton}

/-- A grammar with an automaton has one parse for each sentence. -/
theorem Grammar.Yields.unique (ha : Automaton.build g f = .ok a) (hf : f.Closed g g.productions)
    {r r' w : List Nat} (h : g.Yields [g.start] r w) (h' : g.Yields [g.start] r' w) : r = r' := by
  obtain ⟨o, ⟨_, hrun⟩, hresult⟩ := Progress.run_of_yields ha hf h
  obtain ⟨o', ⟨_, hrun'⟩, hresult'⟩ := Progress.run_of_yields ha hf h'
  rw [Progress.run_unique hrun hrun', hresult'] at hresult
  exact (Except.ok.inj hresult).symm

/-- A grammar that gives a string of terminals two different rightmost derivations has a conflict. -/
theorem conflict_of_ambiguous {w ids ids' : List Nat} (hw : g.IsTerminalString w)
    (h : g.RightmostBy [g.start] ids w) (h' : g.RightmostBy [g.start] ids' w) (hne : ids ≠ ids') :
    ∃ c, Tables.build g = .error (.conflict c) := by
  cases ht : Tables.build g with
  | error e =>
    obtain ⟨c, rfl⟩ := Tables.build_error ht
    exact ⟨c, rfl⟩
  | ok t =>
    obtain ⟨-, ha⟩ := Tables.build_eq_ok ht
    have hreverse := Grammar.Yields.unique ha (Facts.closed_ofGrammar g)
      (Grammar.Yields.of_rightmostBy hw h) (Grammar.Yields.of_rightmostBy hw h')
    exact absurd (List.reverse_inj.mp hreverse) hne

/-- The grammar `E → E + E | n`, with the codes 0 for `E`, 2 for `+` and 3 for `n`. -/
def Grammar.sums : Grammar where
  name := "sums"
  package := ""
  symbols := [⟨"E", []⟩, .augmentedStart, ⟨"+", []⟩, ⟨"n", []⟩]
  augmentedStart := 1
  start := 0
  rules := [⟨1, 0, [0, 2, 0], []⟩, ⟨2, 0, [3], []⟩]
  start_lt := by decide
  symbols_augmentedStart := rfl
  names_nodup := by decide
  rules_ids := rfl
  rules_sides := by decide

/-- The string `n + n + n` can be read as a sum on the right or on the left. -/
theorem conflict_of_ambiguous_sums :
    Grammar.sums.IsTerminalString [3, 2, 3, 2, 3] ∧
      Grammar.sums.RightmostBy [0] [1, 1, 2, 2, 2] [3, 2, 3, 2, 3] ∧
      Grammar.sums.RightmostBy [0] [1, 2, 1, 2, 2] [3, 2, 3, 2, 3] ∧
      [1, 1, 2, 2, 2] ≠ [1, 2, 1, 2, 2] ∧ ∃ c, Tables.build .sums = .error (.conflict c) := by
  have hw : Grammar.sums.IsTerminalString [3, 2, 3, 2, 3] := by
    rw [Grammar.IsTerminalString]
    decide
  have hsum : ⟨1, 0, [0, 2, 0], []⟩ ∈ Grammar.sums.productions := by decide
  have hn : ⟨2, 0, [3], []⟩ ∈ Grammar.sums.productions := by decide
  have hright : Grammar.sums.RightmostBy [0] [1, 1, 2, 2, 2] [3, 2, 3, 2, 3] := by
    apply Grammar.RightmostBy.step (a := []) (b := []) hsum (by decide)
    apply Grammar.RightmostBy.step (a := [0, 2]) (b := []) hsum (by decide)
    apply Grammar.RightmostBy.step (a := [0, 2, 0, 2]) (b := []) hn (by decide)
    apply Grammar.RightmostBy.step (a := [0, 2]) (b := [2, 3]) hn (by decide)
    apply Grammar.RightmostBy.step (a := []) (b := [2, 3, 2, 3]) hn (by decide)
    exact .refl _
  have hleft : Grammar.sums.RightmostBy [0] [1, 2, 1, 2, 2] [3, 2, 3, 2, 3] := by
    apply Grammar.RightmostBy.step (a := []) (b := []) hsum (by decide)
    apply Grammar.RightmostBy.step (a := [0, 2]) (b := []) hn (by decide)
    apply Grammar.RightmostBy.step (a := []) (b := [2, 3]) hsum (by decide)
    apply Grammar.RightmostBy.step (a := [0, 2]) (b := [2, 3]) hn (by decide)
    apply Grammar.RightmostBy.step (a := []) (b := [2, 3, 2, 3]) hn (by decide)
    exact .refl _
  have hne : [1, 1, 2, 2, 2] ≠ [1, 2, 1, 2, 2] := by decide
  exact ⟨hw, hright, hleft, hne, conflict_of_ambiguous hw hright hleft hne⟩

end SimpleLR
