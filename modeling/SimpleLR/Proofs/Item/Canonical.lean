import SimpleLR.Item.Closure
import Mathlib.Tactic.Common

/-!
# Item sets as ascending lists

An item set is kept as the ascending list of its items, so it has one form only, whatever list it is made
from, and it can be searched by halving. Sets are compared by their sizes first and then by their items from
the least one on. This is a total order in which only equal sets compare as equal, so it tells the sets that
have been met from those that have not.
-/
namespace SimpleLR

namespace OrdSet

variable {α : Type} [Ord α]

/-- Searches a list by halving, on the side of its middle where the element belongs. -/
def bisect (a : α) (l : List α) : Bool :=
  match _h : l.drop (l.length / 2) with
  | [] => false
  | b :: right =>
    match compare a b with
    | .lt => bisect a (l.take (l.length / 2))
    | .eq => true
    | .gt => bisect a right
termination_by l.length
decreasing_by
  all_goals
    have hlength := congrArg List.length _h
    simp only [List.length_drop, List.length_cons, List.length_take] at hlength ⊢
    omega

/-- A comparison of sets is a total order, and it puts a smaller set in front. -/
structure OrdersBySize (cmp : OrdSet α → OrdSet α → Ordering) : Prop where
  total : ∀ s t, (cmp s t).isLE = true ∨ (cmp t s).isLE = true
  trans : ∀ s t u, (cmp s t).isLE = true → (cmp t u).isLE = true → (cmp s u).isLE = true
  antisymm : ∀ s t, (cmp s t).isLE = true → (cmp t s).isLE = true → s = t
  swap : ∀ s t, cmp t s = (cmp s t).swap
  eq_iff : ∀ s t, cmp s t = .eq ↔ s = t
  smaller : ∀ s t, s.size < t.size → cmp s t = .lt

/-- A set is kept in ascending order, and any list of its elements makes the same set. -/
structure IsCanonical [Std.TransOrd α] (s : OrdSet α) : Prop where
  ascending : s.toList.Pairwise fun a b => compare a b = .lt
  ofList_eq_iff : ∀ l : List α, ofList l = s ↔ ∀ a, a ∈ l ↔ a ∈ s.toList

section Searching

variable [Std.TransOrd α] {a b : α} {left right : List α}
  (h : (left ++ b :: right).Pairwise fun x y => compare x y = .lt)

include h

theorem mem_left_of_lt (hab : compare a b = .lt) : a ∈ left ++ b :: right ↔ a ∈ left := by
  obtain ⟨-, hright, -⟩ := List.pairwise_append.mp h
  have hne : a ≠ b := by
    rintro rfl
    simp at hab
  have hbehind : a ∉ right := fun ha =>
    Std.OrientedCmp.not_lt_of_lt hab ((List.pairwise_cons.mp hright).1 a ha)
  simp [hne, hbehind]

theorem mem_right_of_gt (hab : compare a b = .gt) : a ∈ left ++ b :: right ↔ a ∈ right := by
  obtain ⟨-, -, hleft⟩ := List.pairwise_append.mp h
  have hne : a ≠ b := by
    rintro rfl
    simp at hab
  have hfront : a ∉ left := fun ha => by
    have hlt := hleft a ha b List.mem_cons_self
    simp [hlt] at hab
  simp [hne, hfront]

end Searching

variable [Std.TransOrd α] [Std.LawfulEqOrd α]

/-- Halving finds an element of an ascending list, wherever it stands. -/
theorem bisect_iff_mem {a : α} {l : List α} (h : l.Pairwise fun x y => compare x y = .lt) :
    bisect a l = true ↔ a ∈ l := by
  fun_induction bisect a l with
  | case1 l hdrop =>
    have hlength := congrArg List.length hdrop
    rw [List.length_drop, List.length_nil] at hlength
    obtain rfl : l = [] := List.eq_nil_of_length_eq_zero (by omega)
    simp
  | case2 l b right hdrop hlt ih =>
    have hl : l.take (l.length / 2) ++ b :: right = l := by rw [← hdrop, List.take_append_drop]
    have hmem := mem_left_of_lt (hl ▸ h) hlt
    rw [hl] at hmem
    exact (ih (h.sublist (List.take_sublist _ l))).trans hmem.symm
  | case3 l b right hdrop heq =>
    obtain rfl := Std.LawfulEqOrd.eq_of_compare heq
    have hmem : a ∈ l := List.mem_of_mem_drop (hdrop ▸ List.mem_cons_self)
    simp [hmem]
  | case4 l b right hdrop hgt ih =>
    have hl : l.take (l.length / 2) ++ b :: right = l := by rw [← hdrop, List.take_append_drop]
    have hmem := mem_right_of_gt (hl ▸ h) hgt
    rw [hl] at hmem
    have hright : right.Pairwise fun x y => compare x y = .lt := by
      rw [← hl] at h
      exact (List.pairwise_cons.mp (List.pairwise_append.mp h).2.1).2
    exact (ih hright).trans hmem.symm

/-- Both ways of searching find the same. -/
theorem bisect_toList (s : OrdSet α) (a : α) : bisect a s.toList = s.contains a := by
  rw [Bool.eq_iff_iff, bisect_iff_mem s.ascending, contains_iff_mem, mem_iff]

/-- A set is what is made from its list. -/
theorem isCanonical (s : OrdSet α) : s.IsCanonical where
  ascending := s.ascending
  ofList_eq_iff l := by
    constructor
    · rintro rfl a
      rw [← mem_iff, mem_ofList]
    · intro h
      ext a
      rw [mem_ofList, h, mem_iff]

theorem ofList_eq_ofList {l m : List α} : ofList l = ofList m ↔ ∀ a, a ∈ l ↔ a ∈ m := by
  simp [(isCanonical (ofList m)).ofList_eq_iff l, ← mem_iff]

/-- The comparison of sets is a total order, by size first. -/
theorem compare_ordersBySize : OrdersBySize (compare : OrdSet α → OrdSet α → Ordering) where
  total s t := by
    rw [Std.OrientedOrd.eq_swap (a := t) (b := s)]
    cases compare s t <;> simp
  trans s t u := Std.TransOrd.isLE_trans
  antisymm s t hst hts := by
    apply Std.LawfulEqOrd.eq_of_compare
    rw [Std.OrientedOrd.eq_swap (a := t) (b := s)] at hts
    cases h : compare s t <;> simp_all
  swap s t := Std.OrientedOrd.eq_swap
  eq_iff s t := Std.LawfulEqOrd.compare_eq_iff_eq
  smaller s t h := by
    have hsize : compare s.size t.size = .lt := Nat.compare_eq_lt.mpr h
    show (compare s.size t.size).then (compare s.toList t.toList) = .lt
    rw [hsize]
    rfl

end OrdSet

/-- Item sets made from lists are strictly ascending, are equal just if the lists have the same items, and
are searched by halving with the right result. They are totally ordered, by size first. What closure and
goto make is kept in the same form. -/
theorem itemSets_canonical :
    (∀ items : List Item, (OrdSet.ofList items).toList.Pairwise fun i j => compare i j = .lt) ∧
    (∀ items items' : List Item,
      OrdSet.ofList items = OrdSet.ofList items' ↔ ∀ i, i ∈ items ↔ i ∈ items') ∧
    (∀ (items : List Item) (i : Item),
      ((OrdSet.ofList items).contains i = true ↔ i ∈ items) ∧
        OrdSet.bisect i (OrdSet.ofList items).toList = (OrdSet.ofList items).contains i) ∧
    OrdSet.OrdersBySize (compare : ItemSet → ItemSet → Ordering) ∧
    ∀ g : Grammar, (∀ items, (closure g items).IsCanonical) ∧
      ∀ (set : ItemSet) (X : Nat), (goto g set X).IsCanonical := by
  refine ⟨fun items => (OrdSet.isCanonical _).ascending, fun _ _ => OrdSet.ofList_eq_ofList,
    fun items i => ⟨?_, OrdSet.bisect_toList _ i⟩, OrdSet.compare_ordersBySize,
    fun g => ⟨fun items => OrdSet.isCanonical _, fun set X => OrdSet.isCanonical _⟩⟩
  rw [OrdSet.contains_iff_mem, OrdSet.mem_ofList]

end SimpleLR
