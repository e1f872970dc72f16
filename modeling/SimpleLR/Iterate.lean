/-!
# Bounded iteration

Every search of this library is a step taken again and again until there is none left to take. The
number of steps is bounded beforehand; a search has come to its end within the bound exactly when
no step is left at the value that `iterate` returns.
-/
namespace SimpleLR

variable {σ : Type}

/-- Takes steps until none is left to take, and at most `bound` of them. -/
def iterate (step : σ → Option σ) : (bound : Nat) → σ → σ
  | 0, s => s
  | bound + 1, s =>
    match step s with
    | none => s
    | some t => iterate step bound t

theorem iterate_of_none {step : σ → Option σ} {s : σ} (h : step s = none) (bound : Nat) :
    iterate step bound s = s := by
  cases bound with
  | zero => rfl
  | succ n => simp [iterate, h]

/-- What every step keeps holds where the iteration ends. -/
theorem iterate_induction {step : σ → Option σ} (P : σ → Prop)
    (keeps : ∀ s t, P s → step s = some t → P t) (bound : Nat) {s : σ} (h : P s) :
    P (iterate step bound s) := by
  induction bound generalizing s with
  | zero => exact h
  | succ n ih =>
    simp only [iterate]
    split
    · exact h
    · rename_i t ht
      exact ih (keeps s t h ht)

/-- Applies a function until it changes nothing, and at most `bound` times. -/
def stabilize [DecidableEq σ] (sweep : σ → σ) (bound : Nat) (s : σ) : σ :=
  iterate (fun s => let t := sweep s; if t = s then none else some t) bound s

end SimpleLR
