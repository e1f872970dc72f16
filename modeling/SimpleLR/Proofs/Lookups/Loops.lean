import SimpleLR.Proofs.Iterate

/-!
# Loops whose steps look things up

A checked computation has no result when one of its lookups finds nothing. Checked loops take such
steps; they have the result of the loop without checks if each step has, at every value that comes up. A
checked iteration also needs to come to its end.
-/
namespace SimpleLR.Checked

variable {σ α β : Type}

/-- Replaces the entry at an index, which has to be there. -/
def set (a : Array α) (i : Nat) (x : α) : Option (Array α) :=
  if i < a.size then some (a.setIfInBounds i x) else none

theorem set_eq {a : Array α} {i : Nat} (h : i < a.size) (x : α) :
    set a i x = some (a.setIfInBounds i x) :=
  if_pos h

/-- Changes the entry at an index, which has to be there. -/
def modify (a : Array α) (i : Nat) (f : α → α) : Option (Array α) :=
  if i < a.size then some (a.modify i f) else none

theorem modify_eq {a : Array α} {i : Nat} (h : i < a.size) (f : α → α) :
    modify a i f = some (a.modify i f) :=
  if_pos h

/-- Takes steps until none is left to take, which has to be so within the bound. -/
def iterate (step : σ → Option (Option σ)) : (bound : Nat) → σ → Option σ
  | 0, s => (step s).bind fun next => if next.isNone then some s else none
  | bound + 1, s => (step s).bind fun next =>
    match next with
    | none => some s
    | some t => iterate step bound t

/-- Applies a function until it changes nothing, which has to be so within the bound. -/
def stabilize [DecidableEq σ] (sweep : σ → Option σ) (bound : Nat) (s : σ) : Option σ :=
  iterate (fun s => (sweep s).map fun t => if t = s then none else some t) bound s

section

variable (P : σ → Prop)

theorem iterate_eq {step : σ → Option (Option σ)} {step' : σ → Option σ}
    (hstep : ∀ s, P s → step s = some (step' s)) (keeps : ∀ s t, P s → step' s = some t → P t)
    {bound : Nat} {s : σ} (hs : P s) (hend : step' (SimpleLR.iterate step' bound s) = none) :
    iterate step bound s = some (SimpleLR.iterate step' bound s) := by
  induction bound generalizing s with
  | zero =>
    have hend : step' s = none := hend
    simp [iterate, SimpleLR.iterate, hstep s hs, hend]
  | succ n ih =>
    cases ht : step' s with
    | none => simp [iterate, SimpleLR.iterate, hstep s hs, ht]
    | some t =>
      have hrun : SimpleLR.iterate step' (n + 1) s = SimpleLR.iterate step' n t := by
        simp [SimpleLR.iterate, ht]
      rw [hrun] at hend ⊢
      simp [iterate, hstep s hs, ht, ih (keeps s t hs ht) hend]

theorem stabilize_eq [DecidableEq σ] {sweep : σ → Option σ} {sweep' : σ → σ}
    (hsweep : ∀ s, P s → sweep s = some (sweep' s)) (keeps : ∀ s, P s → P (sweep' s))
    {bound : Nat} {s : σ} (hs : P s)
    (hstable : sweep' (SimpleLR.stabilize sweep' bound s) = SimpleLR.stabilize sweep' bound s) :
    stabilize sweep bound s = some (SimpleLR.stabilize sweep' bound s) := by
  rw [stabilize_eq_iterate] at hstable ⊢
  apply iterate_eq P _ _ hs (changing_eq_none.mpr hstable)
  · intro s hs
    simp [hsweep s hs, changing]
  · intro s t hs ht
    exact (changing_eq_some.mp ht).2 ▸ keeps s hs

theorem foldlM_eq {f : σ → α → Option σ} {f' : σ → α → σ} {l : List α}
    (hf : ∀ s, P s → ∀ a ∈ l, f s a = some (f' s a)) (keeps : ∀ s, P s → ∀ a ∈ l, P (f' s a))
    {s : σ} (hs : P s) : l.foldlM f s = some (l.foldl f' s) := by
  induction l generalizing s with
  | nil => rfl
  | cons a l ih =>
    have hrest := ih (fun s hs b hb => hf s hs b (List.mem_cons_of_mem a hb))
      (fun s hs b hb => keeps s hs b (List.mem_cons_of_mem a hb)) (keeps s hs a List.mem_cons_self)
    simp [hf s hs a List.mem_cons_self, hrest]

end

theorem mapM_eq {f : α → Option β} {f' : α → β} {l : List α} (hf : ∀ a ∈ l, f a = some (f' a)) :
    l.mapM f = some (l.map f') := by
  induction l with
  | nil => rfl
  | cons a l ih =>
    have hrest := ih fun b hb => hf b (List.mem_cons_of_mem a hb)
    simp [hf a List.mem_cons_self, hrest]

end SimpleLR.Checked
