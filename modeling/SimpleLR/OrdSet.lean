/-!
# Finite sets in ascending order

A finite set over an ordered type is the ascending list of its elements. Two sets are equal exactly
when they have the same elements, and a walk over a set meets its elements from the least to the
greatest.
-/
namespace SimpleLR

/-- A finite set, kept as the strictly ascending list of its elements. -/
structure OrdSet (α : Type) [Ord α] where
  toList : List α
  ascending : toList.Pairwise (fun a b => compare a b = .lt)

namespace OrdSet

variable {α : Type} [Ord α]

instance [DecidableEq α] : DecidableEq (OrdSet α) := fun s t =>
  decidable_of_iff (s.toList = t.toList) (by cases s; cases t; simp)

instance : Membership α (OrdSet α) := ⟨fun s a => a ∈ s.toList⟩

theorem mem_iff {a : α} {s : OrdSet α} : a ∈ s ↔ a ∈ s.toList := Iff.rfl

def empty : OrdSet α := ⟨[], .nil⟩

instance : Inhabited (OrdSet α) := ⟨empty⟩

@[simp] theorem not_mem_empty (a : α) : a ∉ (empty : OrdSet α) := List.not_mem_nil

def size (s : OrdSet α) : Nat := s.toList.length

def isEmpty (s : OrdSet α) : Bool := s.toList.isEmpty

theorem isEmpty_eq_false_iff {s : OrdSet α} : s.isEmpty = false ↔ ∃ a, a ∈ s := by
  rw [isEmpty, List.isEmpty_eq_false_iff_exists_mem]
  rfl

/-- Puts an element in its place of an ascending list, unless the list holds it already. -/
def insertInto (a : α) : List α → List α
  | [] => [a]
  | b :: bs =>
    match compare a b with
    | .lt => a :: b :: bs
    | .eq => b :: bs
    | .gt => b :: insertInto a bs

theorem mem_of_mem_insertInto {a x : α} {l : List α} (h : x ∈ insertInto a l) : x = a ∨ x ∈ l := by
  induction l with
  | nil => simpa [insertInto] using h
  | cons b bs ih =>
    simp only [insertInto] at h
    split at h
    · simpa using h
    · exact .inr h
    · rcases List.mem_cons.mp h with rfl | hx
      · exact .inr List.mem_cons_self
      · exact (ih hx).imp_right (List.mem_cons_of_mem b)

theorem subset_insertInto (a : α) (l : List α) : l ⊆ insertInto a l := by
  induction l with
  | nil => simp
  | cons b bs ih =>
    simp only [insertInto]
    split
    · exact List.subset_cons_self a _
    · exact List.Subset.refl _
    · exact List.cons_subset_cons b ih

theorem mem_insertInto_self [Std.LawfulEqOrd α] (a : α) (l : List α) : a ∈ insertInto a l := by
  induction l with
  | nil => simp [insertInto]
  | cons b bs ih =>
    simp only [insertInto]
    split
    · exact List.mem_cons_self
    · rename_i heq
      exact Std.LawfulEqOrd.eq_of_compare heq ▸ List.mem_cons_self
    · exact List.mem_cons_of_mem b ih

theorem insertInto_ascending [Std.TransOrd α] (a : α) {l : List α}
    (h : l.Pairwise (fun x y => compare x y = .lt)) :
    (insertInto a l).Pairwise (fun x y => compare x y = .lt) := by
  induction l with
  | nil => simp [insertInto]
  | cons b bs ih =>
    obtain ⟨hb, hbs⟩ := List.pairwise_cons.mp h
    simp only [insertInto]
    split
    · rename_i hlt
      refine List.pairwise_cons.mpr ⟨fun x hx => ?_, h⟩
      rcases List.mem_cons.mp hx with rfl | hx
      · exact hlt
      · exact Std.TransCmp.lt_trans hlt (hb x hx)
    · exact h
    · rename_i hgt
      refine List.pairwise_cons.mpr ⟨fun x hx => ?_, ih hbs⟩
      rcases mem_of_mem_insertInto hx with rfl | hx
      · exact Std.OrientedCmp.lt_of_gt hgt
      · exact hb x hx

private theorem not_compare_self_lt [Std.TransOrd α] (a : α) : compare a a ≠ .lt := by
  rw [Std.ReflOrd.compare_self]
  decide

/-- Two ascending lists with the same elements are equal. -/
theorem ascending_ext [Std.TransOrd α] {l m : List α}
    (hl : l.Pairwise (fun x y => compare x y = .lt))
    (hm : m.Pairwise (fun x y => compare x y = .lt)) (h : ∀ a, a ∈ l ↔ a ∈ m) : l = m := by
  induction l generalizing m with
  | nil =>
    cases m with
    | nil => rfl
    | cons b bs => exact absurd ((h b).mpr List.mem_cons_self) List.not_mem_nil
  | cons a as ih =>
    cases m with
    | nil => exact absurd ((h a).mp List.mem_cons_self) List.not_mem_nil
    | cons b bs =>
      obtain ⟨ha, has⟩ := List.pairwise_cons.mp hl
      obtain ⟨hb, hbs⟩ := List.pairwise_cons.mp hm
      have hab : a = b := by
        rcases List.mem_cons.mp ((h a).mp List.mem_cons_self) with hab | hab
        · exact hab
        rcases List.mem_cons.mp ((h b).mpr List.mem_cons_self) with hba | hba
        · exact hba.symm
        exact absurd (Std.TransCmp.lt_trans (hb a hab) (ha b hba)) (not_compare_self_lt b)
      subst hab
      congr 1
      refine ih has hbs fun x => ⟨fun hx => ?_, fun hx => ?_⟩
      · rcases List.mem_cons.mp ((h x).mp (List.mem_cons_of_mem a hx)) with rfl | hx'
        · exact absurd (ha x hx) (not_compare_self_lt x)
        · exact hx'
      · rcases List.mem_cons.mp ((h x).mpr (List.mem_cons_of_mem a hx)) with rfl | hx'
        · exact absurd (hb x hx) (not_compare_self_lt x)
        · exact hx'

@[ext] theorem ext [Std.TransOrd α] {s t : OrdSet α} (h : ∀ a, a ∈ s ↔ a ∈ t) : s = t := by
  cases s with
  | mk l hl =>
    cases t with
    | mk m hm =>
      have : l = m := ascending_ext hl hm h
      subst this
      rfl

/-- Looks for an element from the least one on, and stops where a greater one stands. -/
def searchIn (a : α) : List α → Bool
  | [] => false
  | b :: bs =>
    match compare a b with
    | .lt => false
    | .eq => true
    | .gt => searchIn a bs

/-- Whether the set holds the element. -/
def contains (s : OrdSet α) (a : α) : Bool := searchIn a s.toList

theorem contains_iff_mem [Std.TransOrd α] [Std.LawfulEqOrd α] {s : OrdSet α} {a : α} :
    s.contains a = true ↔ a ∈ s := by
  obtain ⟨l, hl⟩ := s
  show searchIn a l = true ↔ a ∈ l
  induction l with
  | nil => simp [searchIn]
  | cons b bs ih =>
    obtain ⟨hb, hbs⟩ := List.pairwise_cons.mp hl
    simp only [searchIn, List.mem_cons]
    split
    · rename_i hlt
      refine ⟨fun h => absurd h (by decide), ?_⟩
      rintro (rfl | h)
      · exact absurd hlt (not_compare_self_lt a)
      · exact absurd (Std.TransCmp.lt_trans hlt (hb a h)) (not_compare_self_lt a)
    · rename_i heq
      simp [Std.LawfulEqOrd.eq_of_compare heq]
    · rename_i hgt
      rw [ih hbs]
      refine ⟨.inr, ?_⟩
      rintro (rfl | h)
      · exact absurd (Std.OrientedCmp.lt_of_gt hgt) (not_compare_self_lt a)
      · exact h

section Building

variable [Std.TransOrd α]

def insert (s : OrdSet α) (a : α) : OrdSet α :=
  ⟨insertInto a s.toList, insertInto_ascending a s.ascending⟩

/-- Adds every element of a list. -/
def insertAll (s : OrdSet α) (as : List α) : OrdSet α := as.foldl insert s

/-- The set of the elements of a list, in whatever order and however often they stand there. -/
def ofList (as : List α) : OrdSet α := empty.insertAll as

@[simp] theorem mem_insert [Std.LawfulEqOrd α] {s : OrdSet α} {a x : α} :
    x ∈ s.insert a ↔ x = a ∨ x ∈ s := by
  refine ⟨mem_of_mem_insertInto, ?_⟩
  rintro (rfl | h)
  · exact mem_insertInto_self x s.toList
  · exact subset_insertInto a s.toList h

@[simp] theorem mem_insertAll [Std.LawfulEqOrd α] {s : OrdSet α} {as : List α} {x : α} :
    x ∈ s.insertAll as ↔ x ∈ as ∨ x ∈ s := by
  induction as generalizing s with
  | nil => simp [insertAll]
  | cons a as ih =>
    rw [show s.insertAll (a :: as) = (s.insert a).insertAll as from rfl, ih]
    simp only [mem_insert, List.mem_cons]
    constructor
    · rintro (h | h | h)
      · exact .inl (.inr h)
      · exact .inl (.inl h)
      · exact .inr h
    · rintro ((h | h) | h)
      · exact .inr (.inl h)
      · exact .inl h
      · exact .inr (.inr h)

@[simp] theorem mem_ofList [Std.LawfulEqOrd α] {as : List α} {x : α} :
    x ∈ ofList as ↔ x ∈ as := by
  simp [ofList]

end Building

/-- A smaller set comes first; sets of one size compare by their elements from the least one on. -/
instance : Ord (OrdSet α) := ⟨compareLex (compareOn size) (compareOn toList)⟩

instance [Std.TransOrd α] : Std.TransOrd (OrdSet α) :=
  inferInstanceAs (Std.TransCmp (compareLex (compareOn size) (compareOn toList)))

instance [Std.TransOrd α] [Std.LawfulEqOrd α] : Std.LawfulEqOrd (OrdSet α) where
  eq_of_compare {s t} h := by
    have h' : compare s.toList t.toList = .eq := (compareLex_eq_eq.mp h).2
    have := Std.LawfulEqOrd.eq_of_compare h'
    cases s; cases t
    subst this
    rfl

end OrdSet

end SimpleLR
