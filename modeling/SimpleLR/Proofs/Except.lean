import Mathlib.Data.List.Forall2
import Mathlib.Tactic.Common

/-!
# Loops that can fail

A loop over a list ends well if each of its steps does, and otherwise it fails at one of the elements.
-/
namespace SimpleLR

/-- What has a smaller index than an element stands before it. -/
theorem mem_of_zipIdx_eq {α : Type} {l : List α} {l₁ l₂ : List (α × Nat)} {a b : α} {m n : Nat}
    (h : l.zipIdx = l₁ ++ (a, n) :: l₂) (hb : l[m]? = some b) (hlt : m < n) : (b, m) ∈ l₁ := by
  have hn : n = l₁.length := by
    have hlast : l.zipIdx[l₁.length]? = some (a, n) := by simp [h]
    rw [List.getElem?_zipIdx] at hlast
    obtain ⟨c, -, hc⟩ := Option.map_eq_some_iff.mp hlast
    simpa using (congrArg Prod.snd hc).symm
  have hget : l.zipIdx[m]? = some (b, m) := by simp [List.getElem?_zipIdx, hb]
  rw [h, List.getElem?_append_left (hn ▸ hlt)] at hget
  exact List.mem_of_getElem? hget

section Except

variable {α β ε : Type}

/-- What holds of the elements done and the value so far at each step of a fold holds at its end. -/
theorem foldlM_ok_induction {f : β → α → Except ε β} (P : List α → β → Prop)
    (step : ∀ done a b b', P done b → f b a = .ok b' → P (done ++ [a]) b') (done : List α)
    {l : List α} {b b' : β} (h : P done b) (hl : l.foldlM f b = .ok b') : P (done ++ l) b' := by
  induction l generalizing done b with
  | nil =>
    obtain rfl := Except.ok.inj hl
    simpa using h
  | cons a l ih =>
    rw [List.foldlM_cons] at hl
    cases ha : f b a with
    | error e =>
      rw [ha] at hl
      contradiction
    | ok b₁ =>
      rw [ha] at hl
      simpa using ih (done ++ [a]) (step done a b b₁ h ha) hl

theorem mapM_ok {f : α → Except ε β} {l : List α} {r : List β} (h : l.mapM f = .ok r) :
    List.Forall₂ (fun a b => f a = .ok b) l r := by
  induction l generalizing r with
  | nil =>
    obtain rfl := Except.ok.inj h
    exact .nil
  | cons a l ih =>
    rw [List.mapM_cons] at h
    cases ha : f a with
    | error e =>
      rw [ha] at h
      contradiction
    | ok b =>
      rw [ha] at h
      cases hl : l.mapM f with
      | error e =>
        simp [hl, bind, Except.bind] at h
      | ok r' =>
        simp only [hl, bind, Except.bind, pure, Except.pure, Except.ok.injEq] at h
        exact h ▸ .cons ha (ih hl)

theorem eq_ok_of_toOption {x : Except ε α} {a : α} (h : x.toOption = some a) : x = .ok a := by
  cases x with
  | error e => contradiction
  | ok b => exact congrArg Except.ok (Option.some.inj h)

/-- A fold fails at one of the elements, with a value that is sound for the elements before it. -/
theorem foldlM_error {f : β → α → Except ε β} (P : List α → β → Prop)
    (step : ∀ done a b b', P done b → f b a = .ok b' → P (done ++ [a]) b') (done : List α)
    {l : List α} {b : β} {e : ε} (hb : P done b) (h : l.foldlM f b = .error e) :
    ∃ l₁ a l₂ b', l = l₁ ++ a :: l₂ ∧ P (done ++ l₁) b' ∧ f b' a = .error e := by
  induction l generalizing done b with
  | nil => contradiction
  | cons a l ih =>
    rw [List.foldlM_cons] at h
    cases ha : f b a with
    | error e' =>
      rw [ha] at h
      obtain rfl := Except.error.inj h
      exact ⟨[], a, l, b, rfl, by simpa using hb, ha⟩
    | ok b₁ =>
      rw [ha] at h
      obtain ⟨l₁, a', l₂, b', rfl, hb', herror⟩ := ih (done ++ [a]) (step done a b b₁ hb ha) h
      exact ⟨a :: l₁, a', l₂, b', rfl, by simpa using hb', herror⟩

/-- A loop fails at one of the elements, after it has done well at those before. -/
theorem mapM_error {f : α → Except ε β} {l : List α} {e : ε} (h : l.mapM f = .error e) :
    ∃ l₁ a l₂, l = l₁ ++ a :: l₂ ∧ (∀ a' ∈ l₁, ∃ b, f a' = .ok b) ∧ f a = .error e := by
  induction l with
  | nil => contradiction
  | cons a l ih =>
    rw [List.mapM_cons] at h
    cases ha : f a with
    | error e' =>
      rw [ha] at h
      obtain rfl := Except.error.inj h
      exact ⟨[], a, l, rfl, by simp, ha⟩
    | ok b =>
      rw [ha] at h
      cases hl : l.mapM f with
      | error e' =>
        simp only [hl, bind, Except.bind, Except.error.injEq] at h
        obtain ⟨l₁, a', l₂, rfl, hok, herror⟩ := ih (hl.trans (congrArg _ h))
        refine ⟨a :: l₁, a', l₂, rfl, ?_, herror⟩
        simpa using ⟨⟨b, ha⟩, hok⟩
      | ok r => simp [hl, bind, Except.bind, pure, Except.pure] at h

theorem map_eq_ok {f : α → β} {x : Except ε α} {b : β} (h : x.map f = .ok b) :
    ∃ a, x = .ok a ∧ f a = b := by
  cases x with
  | error e => contradiction
  | ok a => exact ⟨a, rfl, Except.ok.inj h⟩

end Except

end SimpleLR
