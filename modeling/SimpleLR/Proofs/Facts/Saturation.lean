import SimpleLR.Proofs.Iterate
import SimpleLR.OrdSet

/-!
# Sweeps that saturate

A sweep visits the productions one after another, and every visit only adds. What a production calls for
at the outset of a sweep is therefore there at its end, and a sweep that changes nothing has nothing
left to add. Rows of sets within a finite domain are saturated after as many sweeps as they have
places.
-/
namespace SimpleLR

section Fold

variable {σ κ α : Type} {f : σ → α → σ} (holds : σ → κ → Prop)

theorem foldl_grows (hf : ∀ s a k, holds s k → holds (f s a) k) (l : List α) {s : σ} {k : κ}
    (h : holds s k) : holds (l.foldl f s) k := by
  induction l generalizing s with
  | nil => exact h
  | cons a l ih => exact ih (hf s a k h)

/-- A fold takes each element at a value that has grown, and grows on from there. -/
theorem foldl_visits (P : σ → Prop) {l : List α} (hP : ∀ s, P s → ∀ a ∈ l, P (f s a))
    (hf : ∀ s a k, holds s k → holds (f s a) k) {a : α} (ha : a ∈ l) {s : σ} (hs : P s) :
    ∃ s', P s' ∧ (∀ k, holds s k → holds s' k) ∧ ∀ k, holds (f s' a) k → holds (l.foldl f s) k := by
  obtain ⟨l₁, l₂, rfl⟩ := List.append_of_mem ha
  use l₁.foldl f s
  constructor
  · exact List.foldlRecOn l₁ f hs fun s hs a ha => hP s hs a (List.mem_append_left _ ha)
  constructor
  · intro k h
    exact foldl_grows holds hf l₁ h
  · intro k h
    rw [List.foldl_append, List.foldl_cons]
    exact foldl_grows holds hf l₂ h

/-- What every visit keeps holds of what sweeping stabilizes to. -/
theorem stabilize_foldl_induction [DecidableEq σ] (P : σ → Prop) {l : List α}
    (hP : ∀ s, P s → ∀ a ∈ l, P (f s a)) (bound : Nat) {s : σ} (hs : P s) :
    P (stabilize (fun s => l.foldl f s) bound s) :=
  stabilize_induction P (fun _ hs => List.foldlRecOn l f hs hP) bound hs

end Fold

section Sets

variable {α : Type} [Ord α]

/-- The set at a place of a row; there is none past its end. -/
def setAt (sets : Array (OrdSet α)) (c : Nat) : OrdSet α := sets.getD c OrdSet.empty

theorem setAt_eq {sets : Array (OrdSet α)} {c : Nat} (hc : c < sets.size) :
    setAt sets c = sets[c] := by
  simp [setAt, Array.getD_eq_getD_getElem?, Array.getElem?_eq_getElem hc]

theorem lt_size_of_mem_setAt {sets : Array (OrdSet α)} {c : Nat} {x : α} (h : x ∈ setAt sets c) :
    c < sets.size := by
  by_contra hc
  simp only [setAt, Array.getD_eq_getD_getElem?, Array.getElem?_eq_none (Nat.not_lt.mp hc),
    Option.getD_none] at h
  exact OrdSet.not_mem_empty x h

variable [Std.TransOrd α] [Std.LawfulEqOrd α]

theorem mem_setAt_modify {sets : Array (OrdSet α)} {c d : Nat} {xs : List α} {x : α} :
    x ∈ setAt (sets.modify c (·.insertAll xs)) d ↔
      x ∈ setAt sets d ∨ d = c ∧ c < sets.size ∧ x ∈ xs := by
  by_cases hd : d < sets.size
  · rw [setAt_eq (by simpa using hd), setAt_eq hd, Array.getElem_modify]
    by_cases hcd : c = d
    · subst hcd
      simp [hd, or_comm]
    · simp [hcd, Ne.symm hcd]
  · have hno : ∀ {s : Array (OrdSet α)}, s.size = sets.size → x ∉ setAt s d := fun hs h =>
      hd (hs ▸ lt_size_of_mem_setAt h)
    constructor
    · intro h
      exact absurd h (hno Array.size_modify)
    · rintro (h | ⟨rfl, hc, -⟩)
      · exact absurd h (hno rfl)
      · exact absurd hc hd

omit [Std.LawfulEqOrd α] in
/-- Two rows of one length are equal if their sets have the same elements everywhere. -/
theorem setAt_ext {s t : Array (OrdSet α)} (hsize : s.size = t.size)
    (h : ∀ c x, x ∈ setAt s c ↔ x ∈ setAt t c) : s = t := by
  apply Array.ext hsize
  intro c hs ht
  ext x
  rw [← setAt_eq hs, ← setAt_eq ht]
  exact h c x

/-- A row of so many sets that hold nothing but elements of a domain. -/
def Within (n : Nat) (domain : List α) (sets : Array (OrdSet α)) : Prop :=
  sets.size = n ∧ ∀ c x, x ∈ setAt sets c → x ∈ domain

theorem Within.modify {n c : Nat} {domain xs : List α} {sets : Array (OrdSet α)}
    (h : Within n domain sets) (hxs : ∀ x ∈ xs, x ∈ domain) :
    Within n domain (sets.modify c (·.insertAll xs)) := by
  constructor
  · simpa using h.1
  · intro d x hx
    rcases mem_setAt_modify.mp hx with hx | ⟨-, -, hx⟩
    · exact h.2 d x hx
    · exact hxs x hx

omit [Std.TransOrd α] [Std.LawfulEqOrd α] in
theorem within_replicate (n : Nat) (domain : List α) :
    Within n domain (Array.replicate n OrdSet.empty) := by
  constructor
  · simp
  · intro c x hx
    have hc : c < n := by simpa using lt_size_of_mem_setAt hx
    rw [setAt_eq (by simpa using hc), Array.getElem_replicate] at hx
    exact absurd hx (OrdSet.not_mem_empty x)

/-- The places of a row of sets: what may stand where. -/
def places (n : Nat) (domain : List α) : List (Nat × α) :=
  (List.range n).flatMap fun c => domain.map (c, ·)

omit [Ord α] [Std.TransOrd α] [Std.LawfulEqOrd α] in
theorem length_places (n : Nat) (domain : List α) :
    (places n domain).length = n * domain.length := by
  simp [places, List.map_const']

omit [Ord α] [Std.TransOrd α] [Std.LawfulEqOrd α] in
@[simp] theorem mem_places {n c : Nat} {domain : List α} {x : α} :
    (c, x) ∈ places n domain ↔ c < n ∧ x ∈ domain := by
  simp [places]

/-- A sweep that only adds elements of a domain fills more and more places. -/
theorem sets_grow {sweep : Array (OrdSet α) → Array (OrdSet α)} {n : Nat} {domain : List α}
    (keeps : ∀ s, Within n domain s → Within n domain (sweep s))
    (grows : ∀ s c x, x ∈ setAt s c → x ∈ setAt (sweep s) c) :
    Grows (Within n domain) sweep (places n domain) fun s k => (setAt s k.1).contains k.2 where
  keeps := keeps
  grows s _ k _ hk := OrdSet.contains_iff_mem.mpr (grows s k.1 k.2 (OrdSet.contains_iff_mem.mp hk))
  ext s t hs ht hst := by
    apply setAt_ext (hs.1.trans ht.1.symm)
    intro c x
    -- Places that are no facts of the row hold nothing on either side.
    have hfact : c < n → x ∈ domain → (x ∈ setAt s c ↔ x ∈ setAt t c) := by
      intro hc hx
      rw [← OrdSet.contains_iff_mem, ← OrdSet.contains_iff_mem, hst (c, x) (mem_places.mpr ⟨hc, hx⟩)]
    constructor
    · intro h
      exact (hfact (hs.1 ▸ lt_size_of_mem_setAt h) (hs.2 c x h)).mp h
    · intro h
      exact (hfact (ht.1 ▸ lt_size_of_mem_setAt h) (ht.2 c x h)).mpr h

end Sets

end SimpleLR
