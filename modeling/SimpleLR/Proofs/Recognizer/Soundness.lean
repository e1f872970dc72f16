import SimpleLR.Proofs.Recognizer.Steps

/-!
# Soundness of the recognizer

All moments of a run are valid. A run accepts where the stack spells the start symbol and nothing is left
of the input, so that the reductions, read backwards, are a rightmost derivation of it.
-/
namespace SimpleLR

variable {g : Grammar} {f : Facts} {a : Automaton}

/-- The productions of a parse have left sides that stand in the string or in a right side; the augmented
start symbol does not stand in any. -/
theorem Grammar.Yields.zero_not_mem {u r w : List Nat} (h : g.Yields u r w)
    (hu : g.augmentedStart ∉ u) : 0 ∉ r := by
  induction h with
  | nil => exact List.not_mem_nil
  | terminal _ _ ih => exact ih fun h => hu (List.mem_cons_of_mem _ h)
  | @node p u r s v w hp _ _ ihr ih =>
    have hid : 0 ≠ p.id := by
      intro h0
      apply hu
      rw [Production.eq_of_id_eq hp (List.mem_cons_self (a := g.startProduction)) h0.symm]
      exact List.mem_cons_self
    have hr : 0 ∉ r := ihr fun h => (Grammar.rhs_lt hp h).2 rfl
    have hs : 0 ∉ s := ih fun h => hu (List.mem_cons_of_mem _ h)
    simp [hid, hr, hs]

namespace Progress

/-- So far everything is sound: the moment is valid and splits the input, or the outcome is no false
acceptance. -/
def Sound (g : Grammar) (input : List Nat) : Progress → Prop
  | running c => ∃ stack γ x y reduced, c = Config.moment stack x y reduced ∧ x ++ y = input ∧
      Config.Valid g stack γ x y reduced
  | ended o => ∀ r, o.result = .ok r → g.Yields [g.start] r input

theorem sound_first {input : List Nat} (hinput : g.Readable input) :
    (running (Config.moment [0] [] input [])).Sound g input :=
  ⟨[0], [], [], input, [], rfl, rfl, .bottom, .nil, hinput⟩

theorem sound_start (ha : Automaton.build g f = .ok a) (input : List Nat) :
    (start g a input).Sound g input :=
  start_induction (Sound g input) (Automaton.exists_accepting ha) sound_first
    fun _ _ _ _ _ hr => by contradiction

theorem sound_step (ha : Automaton.build g f = .ok a) {input : List Nat} {c : Config}
    (h : (running c).Sound g input) : (c.step g a).Sound g input := by
  obtain ⟨stack, γ, x, y, reduced, rfl, rfl, hv⟩ := h
  have hdoes := hv.does ha
  generalize (Config.moment stack x y reduced).step g a = p at hdoes ⊢
  cases hdoes with
  | shift hy hv' => exact ⟨_, _, _, _, _, rfl, by simp [hy], hv'⟩
  | reduce _ _ hv' => exact ⟨_, _, _, _, _, rfl, rfl, hv'⟩
  | accept hy hγ =>
    intro r hr
    obtain rfl := Except.ok.inj hr
    simpa [hy, hγ] using hv.yields
  | unreadable | stuck | unexpected =>
    intro r hr
    contradiction

end Progress

/-- Whatever facts the automaton was built from, an accepted input is a string of terminals, and the
productions reported are a rightmost derivation of it, read backwards. -/
theorem recognize_sound (ha : Automaton.build g f = .ok a) {states : List Nat} {stats : Stats} {fuel : Nat}
    {input r : List Nat} {after : Recognizer}
    (h : (⟨g, a, states, stats⟩ : Recognizer).recognize fuel input = some (.ok r, after)) :
    g.IsTerminalString input ∧ 0 ∉ r ∧ g.RightmostBy [g.start] r.reverse input := by
  obtain ⟨o, hrun, hresult, -⟩ := Recognizer.recognize_eq_some.mp h
  have hsound := Progress.run_induction (Progress.Sound g input)
    (fun c hc => Progress.sound_step ha hc) (Progress.sound_start ha input) hrun
  have hyields : g.Yields [g.start] r input := hsound r hresult
  have h0 : g.augmentedStart ∉ [g.start] := by
    simpa using Nat.ne_of_gt g.start_lt
  exact ⟨hyields.isTerminalString, hyields.zero_not_mem h0, hyields.rightmostBy⟩

/-- Facts that know of nothing but what follows `S` still make an automaton that recognizes `aabb`. -/
theorem recognize_sound_balanced : ∃ a after,
    Automaton.build .balanced ⟨#[], #[], #[.ofList [.terminal 4, .endOfInput], .empty, .empty]⟩ = .ok a ∧
      (⟨.balanced, a, [], .zero⟩ : Recognizer).recognize 10 [3, 3, 4, 4] = some (.ok [2, 1, 1], after) ∧
      Grammar.balanced.IsTerminalString [3, 3, 4, 4] ∧ 0 ∉ [2, 1, 1] ∧
      Grammar.balanced.RightmostBy [0] [1, 1, 2] [3, 3, 4, 4] := by
  have hrun : ((Automaton.build .balanced
      ⟨#[], #[], #[.ofList [.terminal 4, .endOfInput], .empty, .empty]⟩).toOption.bind fun a =>
        ((⟨.balanced, a, [], .zero⟩ : Recognizer).recognize 10 [3, 3, 4, 4]).bind (·.1.toOption)) =
      some [2, 1, 1] := by
    decide +kernel
  obtain ⟨a, ha, hrun⟩ := Option.bind_eq_some_iff.mp hrun
  obtain ⟨⟨result, after⟩, hrun, hresult⟩ := Option.bind_eq_some_iff.mp hrun
  have ha := eq_ok_of_toOption ha
  obtain rfl : result = .ok [2, 1, 1] := eq_ok_of_toOption hresult
  exact ⟨a, after, ha, hrun, recognize_sound ha hrun⟩

end SimpleLR
