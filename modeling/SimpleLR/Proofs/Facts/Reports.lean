import SimpleLR.Proofs.Iterate
import Mathlib.Tactic.Common

/-!
# Sweeps that report changes

A loop need not compare the facts after a sweep with those before it. It can keep a flag that is raised
wherever something is put in that was not there, and go on as long as the last sweep has raised it. Since
facts only ever come to hold, the flag is raised by just those sweeps that change anything, and the last
sweep is one that changes nothing.
-/
namespace SimpleLR

section Report

variable {σ κ α : Type}

/-- As long as the flag is raised, it is lowered and another sweep is made. -/
def whileRaised (sweep : σ × Bool → σ × Bool) : σ × Bool → Option (σ × Bool)
  | (s, true) => some (sweep (s, false))
  | (_, false) => none

/-- The loop makes at most so many sweeps to get from `start` to `result`, and another sweep neither changes
the result nor raises the flag. -/
structure Settles (sweep : σ × Bool → σ × Bool) (bound : Nat) (start result : σ) : Prop where
  ends : ∃ n ≤ bound, EndsAfter (whileRaised sweep) n (start, true) (result, false)
  stable : sweep (result, false) = (result, false)

variable [DecidableEq σ]

/-- `f'` changes a value as `f` does, which has facts hold and never cease to, and raises the flag if that
makes a difference. -/
structure Reports (P : σ → Prop) (holds : σ → κ → Prop) (f' : σ × Bool → σ × Bool) (f : σ → σ) :
    Prop where
  eq : ∀ s flag, P s → f' (s, flag) = (f s, flag || decide (f s ≠ s))
  keeps : ∀ s, P s → P (f s)
  grows : ∀ s, P s → ∀ k, holds s k → holds (f s) k

namespace Reports

variable {P : σ → Prop} {holds : σ → κ → Prop} {f' g' : σ × Bool → σ × Bool} {f g : σ → σ}

theorem id : Reports P holds id id where
  eq := by simp
  keeps _ hs := hs
  grows _ _ _ h := h

theorem congr (h : Reports P holds f' f) (hfg : ∀ s, P s → f s = g s) : Reports P holds f' g where
  eq s flag hs := hfg s hs ▸ h.eq s flag hs
  keeps s hs := hfg s hs ▸ h.keeps s hs
  grows s hs := hfg s hs ▸ h.grows s hs

/-- What is done may depend on the value at hand. -/
theorem diagonal {G : σ → σ × Bool → σ × Bool} {F : σ → σ → σ}
    (h : ∀ s, P s → Reports P holds (G s) (F s)) :
    Reports P holds (fun c => G c.1 c) (fun s => F s s) where
  eq s flag hs := (h s hs).eq s flag hs
  keeps s hs := (h s hs).keeps s hs
  grows s hs := (h s hs).grows s hs

section

variable (ext : ∀ s t, P s → P t → (∀ k, holds s k ↔ holds t k) → s = t)

include ext

/-- What one change has put in, the next one does not take out, so two changes in a row make a difference
if one of them does. -/
theorem comp (hf : Reports P holds f' f) (hg : Reports P holds g' g) :
    Reports P holds (g' ∘ f') (g ∘ f) where
  eq s flag hs := by
    have hfs := hf.keeps s hs
    rw [Function.comp_apply, Function.comp_apply, hf.eq s flag hs, hg.eq _ _ hfs, Bool.or_assoc,
      ← Bool.decide_or]
    congr 3
    rw [eq_iff_iff]
    constructor
    · intro h hboth
      have hfixed : f s = s := by
        apply ext _ _ hfs hs
        intro k
        exact ⟨fun hk => hboth ▸ hg.grows _ hfs k hk, hf.grows s hs k⟩
      rw [hfixed] at h hboth
      exact h.elim (· rfl) (· hboth)
    · intro h
      by_cases hfixed : f s = s
      · rw [hfixed] at h ⊢
        exact .inr h
      · exact .inl hfixed
  keeps s hs := hg.keeps _ (hf.keeps s hs)
  grows s hs k hk := hg.grows _ (hf.keeps s hs) k (hf.grows s hs k hk)

theorem foldl {G : σ × Bool → α → σ × Bool} {F : σ → α → σ} {l : List α}
    (h : ∀ a ∈ l, Reports P holds (G · a) (F · a)) :
    Reports P holds (fun c => l.foldl G c) (fun s => l.foldl F s) := by
  induction l with
  | nil => exact id
  | cons a l ih =>
    exact (h a List.mem_cons_self).comp ext (ih fun b hb => h b (List.mem_cons_of_mem a hb))

end

/-- After the sweeps that change something there is one more, which finds that nothing changes. -/
theorem endsAfter (h : Reports P holds f' f) {n : Nat} {s u : σ} (hs : P s)
    (hends : EndsAfter (changing f) n s u) :
    EndsAfter (whileRaised f') (n + 1) (s, true) (u, false) := by
  induction hends with
  | @ended s hstop =>
    have hsweep : f' (s, false) = (s, false) := by
      simp [h.eq s false hs, changing_eq_none.mp hstop]
    exact .next (congrArg some hsweep) (.ended rfl)
  | @next n s t u hstep _ ih =>
    obtain ⟨hne, rfl⟩ := changing_eq_some.mp hstep
    have hsweep : f' (s, false) = (f s, true) := by
      simp [h.eq s false hs, hne]
    exact .next (congrArg some hsweep) (ih (h.keeps s hs))

/-- There is a sweep for each fact that is still to come at most, and the last one. -/
theorem settles (h : Reports P holds f' f) {facts : List κ} {known : σ → κ → Bool}
    (hgrows : Grows P f facts known) {s : σ} (hs : P s) {n bound : Nat} (hn : facts.length ≤ n)
    (hbound : facts.length - facts.countP (known s) + 1 ≤ bound) :
    Settles f' bound s (stabilize f n s) := by
  obtain ⟨k, hle, u, hu⟩ := hgrows.exists_endsAfter hs
  have hresult : stabilize f n s = u := hu.iterate_eq (by omega)
  have hPu : P u := hresult ▸ stabilize_induction P h.keeps n hs
  have hstable : f u = u := changing_eq_none.mp hu.step_eq_none
  rw [hresult]
  constructor
  · exact ⟨k + 1, by omega, h.endsAfter hs hu⟩
  · simp [h.eq u false hPu, hstable]

end Reports

end Report

end SimpleLR
