import SimpleLR.Proofs.Except
import SimpleLR.Proofs.Recognizer.Errors
import SimpleLR.Proofs.Recognizer.Safety

/-!
# What the counters of a run say

Codes are read one at a time, and each is shifted before the next one is read. So at the end of a run the
counters tell how much of the input has been shifted and whether one more code had been read, and a run
that fails has taken no notice of what stands behind the code that it fails at. Nothing is left over from
the runs before.
-/
namespace SimpleLR

variable {g : Grammar} {f : Facts} {a : Automaton}

/-- What the counters show at the end of a run over an input. -/
inductive Outcome.Accounts (g : Grammar) (input : List Nat) : Outcome → Prop
  /-- All of the input has been shifted. -/
  | accepted {r stack : List Nat} :
      Accounts g input ⟨.ok r, ⟨input.length, input.length, r.length⟩, stack⟩
  /-- All codes before the first one that is not that of a terminal have been shifted. -/
  | notTerminal {x y stack : List Nat} {c n : Nat} (hinput : input = x ++ c :: y)
      (hx : g.IsTerminalString x) (hc : c ∉ g.terminals) :
      Accounts g input ⟨.error (.notTerminal c), ⟨x.length, x.length, n⟩, stack⟩
  /-- A terminal has been read and not been shifted. -/
  | unexpected {x y stack : List Nat} {c s n : Nat} (hinput : input = x ++ c :: y)
      (hx : g.IsTerminalString (x ++ [c])) :
      Accounts g input ⟨.error (.unexpected (.terminal c) s), ⟨x.length + 1, x.length, n⟩, stack⟩
  /-- All of the input has been shifted, but more is expected. -/
  | unfinished {s n : Nat} {stack : List Nat} :
      Accounts g input ⟨.error (.unexpected .endOfInput s), ⟨input.length, input.length, n⟩, stack⟩

namespace Progress

/-- So far the counters say what has been done: the moment is sound, or the outcome is accounted for. -/
def Accounts (g : Grammar) (input : List Nat) : Progress → Prop
  | running c => (running c).Sound g input
  | ended o => o.Accounts g input

theorem accounts_start (ha : Automaton.build g f = .ok a) (input : List Nat) :
    (start g a input).Accounts g input := by
  apply start_induction (Accounts g input) (Automaton.exists_accepting ha) sound_first
  rintro c y rfl hc
  exact .notTerminal (x := []) rfl Grammar.isTerminalString_nil hc

theorem accounts_step (ha : Automaton.build g (Facts.ofGrammar g) = .ok a) {input : List Nat}
    {c : Config} (h : (running c).Accounts g input) : (c.step g a).Accounts g input := by
  have hsound := sound_step ha h
  obtain ⟨stack, γ, x, y, reduced, rfl, rfl, hv⟩ := h
  have hx : g.IsTerminalString x := hv.yields.isTerminalString
  have hdoes := hv.does ha
  generalize (Config.moment stack x y reduced).step g a = p at hsound hdoes ⊢
  cases hdoes with
  | shift | reduce => exact hsound
  | @unreadable c d t y' hy hd =>
    have hc : c ∈ g.terminals := hv.readable c (by rw [hy]; rfl)
    have hxc : g.IsTerminalString (x ++ [c]) := by simpa [hc] using hx
    have hinput : x ++ y = (x ++ [c]) ++ d :: y' := by simp [hy]
    have hlength : x.length + 1 = (x ++ [c]).length := by simp
    rw [hlength]
    exact .notTerminal hinput hxc hd
  | stuck hs hy hget =>
    subst hs
    exact absurd hget (hv.not_stuck ha hy)
  | accept hy =>
    have haccepted : Outcome.Accounts g x
        ⟨.ok reduced.reverse, ⟨x.length, x.length, reduced.reverse.length⟩, stack⟩ := .accepted
    rw [List.length_reverse] at haccepted
    rw [hy, List.append_nil]
    exact haccepted
  | unexpected =>
    cases y with
    | nil =>
      rw [List.append_nil]
      exact .unfinished
    | cons c y' =>
      have hc : c ∈ g.terminals := hv.readable c rfl
      exact .unexpected rfl (by simpa [hc] using hx)

/-- What stands behind the code that comes after what a run has shifted makes no difference to it. -/
theorem run_cut (ha : Automaton.build g f = .ok a) {x y : List Nat} {c fuel : Nat} {o : Outcome}
    (h : run g a fuel (start g a (x ++ c :: y)) = some o) (hshifts : o.stats.shifts = x.length)
    (y' : List Nat) : ∃ fuel', run g a fuel' (start g a (x ++ c :: y')) = some o := by
  obtain ⟨_, _, x', z, _, hshifts', hsplit, -, -, halike⟩ := run_settled ha h
  obtain ⟨rfl, rfl⟩ := List.append_inj hsplit (hshifts'.symm.trans hshifts)
  exact halike (c :: y') rfl

end Progress

namespace Recognizer

theorem codeOf_error {r : Recognizer} {name : String} {e : RecognizeError}
    (h : r.codeOf name = .error e) :
    e = .unknownTerminal name ∧ name ∉ r.grammar.symbols.map Symbol.name := by
  rw [codeOf] at h
  split at h
  · contradiction
  · rename_i hnone
    obtain rfl := Except.error.inj h
    simpa [Grammar.symbolCode?] using hnone

theorem codeOf_eq_ok {r : Recognizer} {name : String} {c : Nat} (h : r.codeOf name = .ok c) :
    name ∈ r.grammar.symbols.map Symbol.name := by
  by_contra hname
  have hnone : r.grammar.symbolCode? name = none := by
    simpa [Grammar.symbolCode?] using hname
  simp [codeOf, hnone] at h

/-- Names are looked up before a run begins, and the first one that is not found ends it. -/
theorem recognizeNames_eq_error {r : Recognizer} {names : List String}
    (h : ∃ name ∈ names, name ∉ r.grammar.symbols.map Symbol.name) (fuel : Nat) :
    ∃ name ∈ names, name ∉ r.grammar.symbols.map Symbol.name ∧
      r.recognizeNames fuel names = some (.error (.unknownTerminal name), r) := by
  cases hcodes : names.mapM r.codeOf with
  | ok codes =>
    obtain ⟨name, hmem, hname⟩ := h
    have hfound := (mapM_ok hcodes).imp fun _ _ hc => And.intro (codeOf_eq_ok hc) hc
    exact absurd (((List.forall₂_and_left _ _).mp hfound).1 name hmem) hname
  | error e =>
    obtain ⟨before, name, behind, rfl, -, herror⟩ := mapM_error hcodes
    obtain ⟨rfl, hname⟩ := codeOf_error herror
    refine ⟨name, by simp, hname, ?_⟩
    simp [recognizeNames, take, codesOf, hcodes]

end Recognizer

/-- With the tables of a grammar, and after any runs before, a run does what it would have done on a new
recognizer. The counters say how far it has got, and what stands behind the code that it fails at makes no
difference. Names that are not all names of symbols are refused before a run begins. -/
theorem recognize_accounts {t : Tables} (ht : Tables.build g = .ok t) {r : Recognizer}
    (hr : (Recognizer.new t.grammar t.automaton).Becomes r) :
    (∀ fuel input, r.recognize fuel input =
      (Recognizer.new t.grammar t.automaton).recognize fuel input) ∧
    (∀ fuel input result after, r.recognize fuel input = some (result, after) →
      (⟨result, after.stats, after.states⟩ : Outcome).Accounts g input ∧
      ∀ x c y, input = x ++ c :: y → after.stats.shifts = x.length →
        ∀ y', ∃ fuel', r.recognize fuel' (x ++ c :: y') = some (result, after)) ∧
    ∀ fuel names, (∃ name ∈ names, name ∉ g.symbols.map Symbol.name) →
      ∃ name ∈ names, name ∉ g.symbols.map Symbol.name ∧
        r.recognizeNames fuel names = some (.error (.unknownTerminal name), r) := by
  obtain ⟨hgrammar, hautomaton⟩ := hr.same
  obtain ⟨hg, ha⟩ := Tables.build_eq_ok ht
  have hgrammar : r.grammar = t.grammar := hgrammar
  have hautomaton : r.automaton = t.automaton := hautomaton
  refine ⟨fun fuel input => ?_, fun fuel input result after h => ?_, fun fuel names h => ?_⟩
  · simp only [Recognizer.recognize, Recognizer.start_eq, Recognizer.new, hgrammar, hautomaton]
  · obtain ⟨o, hrun, rfl, rfl⟩ := Recognizer.recognize_eq_some.mp h
    rw [hgrammar, hg, hautomaton] at hrun
    have haccounts := Progress.run_induction (Progress.Accounts g input)
      (fun _ hc => Progress.accounts_step ha hc) (Progress.accounts_start ha input) hrun
    refine ⟨haccounts, ?_⟩
    rintro x c y rfl hshifts y'
    obtain ⟨fuel', hrun'⟩ := Progress.run_cut ha hrun hshifts y'
    refine ⟨fuel', Recognizer.recognize_eq_some.mpr ⟨o, ?_, rfl, rfl⟩⟩
    rw [hgrammar, hg, hautomaton, hrun']
  · rw [← hg, ← hgrammar] at h ⊢
    exact Recognizer.recognizeNames_eq_error h fuel

/-- A run on `abb` fails and leaves two states on the stack of the recognizer of the grammar `S → a S b | ε`.
They do not show in the next run, which refuses the second `b` of `abba`, whatever comes behind it. Then the
recognizer is given a name that it does not know. -/
theorem recognize_accounts_balanced : ∃ t r after,
    Tables.build .balanced = .ok t ∧ (Recognizer.new t.grammar t.automaton).Becomes r ∧
      r.states = [1, 0] ∧ r.stats = ⟨3, 2, 2⟩ ∧
      r.recognize 10 [3, 4, 4, 3] =
        (Recognizer.new t.grammar t.automaton).recognize 10 [3, 4, 4, 3] ∧
      r.recognize 10 [3, 4, 4, 3] = some (.error (.unexpected (.terminal 4) 1), after) ∧
      (⟨.error (.unexpected (.terminal 4) 1), after.stats, after.states⟩ : Outcome).Accounts .balanced
        [3, 4, 4, 3] ∧
      (∃ fuel, r.recognize fuel [3, 4, 4, 0, 9] =
        some (.error (.unexpected (.terminal 4) 1), after)) ∧
      r.recognizeNames 10 ["a", "c"] = some (.error (.unknownTerminal "c"), r) := by
  have hrun : ((Tables.build .balanced).toOption.bind fun t =>
      ((Recognizer.new t.grammar t.automaton).take 10 (.codes [3, 4, 4])).bind fun p =>
        (p.2.recognize 10 [3, 4, 4, 3]).map fun q => (p.2.states, p.2.stats, q.1, q.2.stats.shifts)) =
      some ([1, 0], ⟨3, 2, 2⟩, .error (.unexpected (.terminal 4) 1), 2) := by
    decide +kernel
  obtain ⟨t, ht, hrun⟩ := Option.bind_eq_some_iff.mp hrun
  obtain ⟨⟨_, r⟩, hbefore, hrun⟩ := Option.bind_eq_some_iff.mp hrun
  obtain ⟨⟨result, after⟩, hrun, hresult⟩ := Option.map_eq_some_iff.mp hrun
  obtain ⟨hstates, hresult⟩ := Prod.mk.inj hresult
  obtain ⟨hstats, hresult⟩ := Prod.mk.inj hresult
  obtain ⟨rfl, hshifts⟩ := Prod.mk.inj hresult
  have ht := eq_ok_of_toOption ht
  have hr : (Recognizer.new t.grammar t.automaton).Becomes r := .single ⟨10, _, _, hbefore⟩
  obtain ⟨hnew, haccounts, hnames⟩ := recognize_accounts ht hr
  obtain ⟨haccount, hcut⟩ := haccounts 10 _ _ _ hrun
  have hunknown : ∀ name ∈ ["a", "c"],
      name ∉ Grammar.balanced.symbols.map Symbol.name → name = "c" := by
    decide
  obtain ⟨name, hmem, hname, hrefused⟩ := hnames 10 ["a", "c"] ⟨"c", by decide, by decide⟩
  obtain rfl := hunknown name hmem hname
  exact ⟨t, r, after, ht, hr, hstates, hstats, hnew 10 _, hrun, haccount,
    hcut [3, 4] 4 [3] rfl hshifts [0, 9], hrefused⟩

end SimpleLR
