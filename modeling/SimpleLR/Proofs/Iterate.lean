import SimpleLR.Iterate
import Mathlib.Tactic.Common

/-!
# Iterations that come to their end

An iteration reaches a value without a next step when each step lowers a number that the bound is not
below at the outset; it is then the loop without a bound. A stabilization reaches a value that its sweep
leaves alone when a sweep that changes anything makes more of finitely many facts hold.
-/
namespace SimpleLR

variable {σ κ : Type}

/-- A loop takes steps as long as there is one left, and comes to its end after so many of them. -/
inductive EndsAfter (step : σ → Option σ) : Nat → σ → σ → Prop
  | ended {s : σ} (h : step s = none) : EndsAfter step 0 s s
  | next {n : Nat} {s t u : σ} (h : step s = some t) (hrest : EndsAfter step n t u) :
      EndsAfter step (n + 1) s u

namespace EndsAfter

variable {step : σ → Option σ} {n bound : Nat} {s u : σ}

theorem step_eq_none (h : EndsAfter step n s u) : step u = none := by
  induction h with
  | ended h => exact h
  | next _ _ ih => exact ih

/-- The bound of an iteration makes no difference if the loop ends within it. -/
theorem iterate_eq (h : EndsAfter step n s u) (hb : n ≤ bound) : iterate step bound s = u := by
  induction h generalizing bound with
  | ended h => exact iterate_of_none h bound
  | next h _ ih =>
    obtain ⟨bound, rfl⟩ := Nat.exists_eq_add_of_lt (Nat.lt_of_lt_of_le (Nat.succ_pos _) hb)
    rw [Nat.zero_add, iterate, h]
    exact ih (by omega)

end EndsAfter

section Measure

variable {step : σ → Option σ} (P : σ → Prop) (keeps : ∀ s t, P s → step s = some t → P t)
  (left : σ → Nat) (lowers : ∀ s t, P s → step s = some t → left t < left s)

include keeps lowers

/-- A loop whose steps lower a number ends after no more steps than the number is at the outset. -/
theorem exists_endsAfter {s : σ} (h : P s) : ∃ n ≤ left s, ∃ u, EndsAfter step n s u := by
  induction hn : left s using Nat.strongRecOn generalizing s with
  | ind m ih =>
    cases hs : step s with
    | none => exact ⟨0, Nat.zero_le m, s, .ended hs⟩
    | some t =>
      have hlt : left t < m := hn ▸ lowers s t h hs
      obtain ⟨n, hle, u, hu⟩ := ih (left t) hlt (keeps s t h hs) rfl
      exact ⟨n + 1, by omega, u, .next hs hu⟩

/-- If the bound of an iteration is not below that number, it reaches the end of the loop. -/
theorem iterate_endsAfter {bound : Nat} {s : σ} (h : P s) (hb : left s ≤ bound) :
    ∃ n ≤ bound, EndsAfter step n s (iterate step bound s) := by
  obtain ⟨n, hle, u, hu⟩ := exists_endsAfter P keeps left lowers h
  have hn := Nat.le_trans hle hb
  rw [hu.iterate_eq hn]
  exact ⟨n, hn, hu⟩

end Measure

theorem countP_lt_countP {p q : κ → Bool} {l : List κ} (h : ∀ k ∈ l, p k = true → q k = true)
    {k : κ} (hk : k ∈ l) (hq : q k = true) (hp : p k = false) : l.countP p < l.countP q := by
  induction l with
  | nil => exact absurd hk List.not_mem_nil
  | cons a l ih =>
    have hl : ∀ k ∈ l, p k = true → q k = true := fun k hk => h k (List.mem_cons_of_mem a hk)
    rcases List.mem_cons.mp hk with rfl | hk
    · have := List.countP_mono_left hl
      rw [List.countP_cons_of_pos hq, List.countP_cons_of_neg (by simp [hp])]
      omega
    · have hlt := ih hl hk
      by_cases hpa : p a = true
      · rw [List.countP_cons_of_pos hpa, List.countP_cons_of_pos (h a List.mem_cons_self hpa)]
        omega
      · rw [List.countP_cons_of_neg hpa, List.countP_cons]
        omega

section Stabilize

variable [DecidableEq σ] {sweep : σ → σ} (P : σ → Prop)

/-- The step of a stabilization. -/
def changing (sweep : σ → σ) (s : σ) : Option σ := if sweep s = s then none else some (sweep s)

theorem stabilize_eq_iterate (bound : Nat) (s : σ) :
    stabilize sweep bound s = iterate (changing sweep) bound s := rfl

theorem changing_eq_none {s : σ} : changing sweep s = none ↔ sweep s = s := by
  rw [changing]
  split <;> simp [*]

theorem changing_eq_some {s t : σ} : changing sweep s = some t ↔ sweep s ≠ s ∧ sweep s = t := by
  rw [changing]
  split <;> simp [*]

theorem stabilize_induction (keeps : ∀ s, P s → P (sweep s)) (bound : Nat) {s : σ} (h : P s) :
    P (stabilize sweep bound s) :=
  iterate_induction P (fun s _ hs ht => (changing_eq_some.mp ht).2 ▸ keeps s hs) bound h

/-- A sweep only ever makes facts of a list hold, and these tell the values apart. -/
structure Grows (sweep : σ → σ) (facts : List κ) (holds : σ → κ → Bool) : Prop where
  keeps : ∀ s, P s → P (sweep s)
  grows : ∀ s, P s → ∀ k ∈ facts, holds s k = true → holds (sweep s) k = true
  ext : ∀ s t, P s → P t → (∀ k ∈ facts, holds s k = holds t k) → s = t

namespace Grows

variable {P} {facts : List κ} {holds : σ → κ → Bool} (h : Grows P sweep facts holds) {s : σ}

include h

omit [DecidableEq σ] in
/-- A changed value differs in a fact, and a fact that held before still holds. -/
theorem countP_lt (hs : P s) (hne : sweep s ≠ s) :
    facts.countP (holds s) < facts.countP (holds (sweep s)) := by
  have hnew : ∃ k ∈ facts, holds (sweep s) k = true ∧ holds s k = false := by
    by_contra hno
    apply hne
    apply h.ext _ _ (h.keeps s hs) hs
    intro k hk
    by_cases hsk : holds s k = true
    · rw [hsk, h.grows s hs k hk hsk]
    · have hsw : ¬holds (sweep s) k = true := fun hsw => hno ⟨k, hk, hsw, by simpa using hsk⟩
      simp only [Bool.not_eq_true] at hsk hsw
      rw [hsk, hsw]
  obtain ⟨k, hk, hyes, hno⟩ := hnew
  exact countP_lt_countP (h.grows s hs) hk hyes hno

/-- There are no more sweeps that change anything than facts that do not hold at the outset. -/
theorem exists_endsAfter (hs : P s) :
    ∃ n ≤ facts.length - facts.countP (holds s), ∃ u, EndsAfter (changing sweep) n s u := by
  apply SimpleLR.exists_endsAfter P (fun s _ hs ht => (changing_eq_some.mp ht).2 ▸ h.keeps s hs)
    (fun s => facts.length - facts.countP (holds s)) _ hs
  intro s t hs ht
  obtain ⟨hne, rfl⟩ := changing_eq_some.mp ht
  have hlt := h.countP_lt hs hne
  have hle : facts.countP (holds (sweep s)) ≤ facts.length := List.countP_le_length
  omega

/-- A sweep leaves alone what it stabilizes to, as long as its bound covers all facts. -/
theorem stabilize_stable {bound : Nat} (hb : facts.length ≤ bound) (hs : P s) :
    sweep (stabilize sweep bound s) = stabilize sweep bound s := by
  obtain ⟨n, hle, u, hu⟩ := h.exists_endsAfter hs
  rw [stabilize_eq_iterate, hu.iterate_eq (by omega)]
  exact changing_eq_none.mp hu.step_eq_none

end Grows

end Stabilize

end SimpleLR
