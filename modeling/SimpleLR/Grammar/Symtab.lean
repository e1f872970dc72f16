/-!
# Symbol tables

A symbol table gives each new name the next index. It is kept in a map that numbers its entries. Which map
that is does not matter, as long as a new entry goes behind the others and is answered with its place.
-/
namespace SimpleLR

/-- A map from names that numbers its entries, as far as a symbol table makes use of it. -/
class IndexMap (M : Type → Type) where
  empty {V : Type} : M V
  /-- How a value is put in under a name that the map does not have. The answer is the map after that,
  with the index of the new entry. -/
  vacant? {V : Type} (m : M V) (name : String) : Option (V → M V × Nat)
  getIndexOf {V : Type} (m : M V) (name : String) : Option Nat
  getIndex {V : Type} (m : M V) (index : Nat) : Option (String × V)
  len {V : Type} (m : M V) : Nat
  /-- All entries, in their order. -/
  iter {V : Type} (m : M V) : List (String × V)

/-- What is relied on of a map that numbers its entries. -/
class LawfulIndexMap (M : Type → Type) [IndexMap M] : Prop where
  iter_empty {V : Type} : IndexMap.iter (IndexMap.empty : M V) = []
  /-- There is room for a name just if no entry has it. -/
  vacant?_eq_none {V : Type} (m : M V) (name : String) :
    IndexMap.vacant? m name = none ↔ name ∈ (IndexMap.iter m).map Prod.fst
  /-- A new entry goes behind the others. -/
  iter_insert {V : Type} {m : M V} {name : String} {insert : V → M V × Nat}
    (h : IndexMap.vacant? m name = some insert) (value : V) :
    IndexMap.iter (insert value).1 = IndexMap.iter m ++ [(name, value)]
  /-- It is answered with its index, which is the last one. -/
  index_insert {V : Type} {m : M V} {name : String} {insert : V → M V × Nat}
    (h : IndexMap.vacant? m name = some insert) (value : V) : (insert value).2 = (IndexMap.iter m).length
  /-- The index of an entry is its place in the order. -/
  getIndexOf_eq {V : Type} (m : M V) (name : String) :
    IndexMap.getIndexOf m name = (IndexMap.iter m).findIdx? (·.1 = name)
  getIndex_eq {V : Type} (m : M V) (index : Nat) : IndexMap.getIndex m index = (IndexMap.iter m)[index]?
  len_eq {V : Type} (m : M V) : IndexMap.len m = (IndexMap.iter m).length

/-- The map that is nothing but the list of its entries. -/
structure Entries (V : Type) where
  toList : List (String × V)

@[default_instance] instance : IndexMap Entries where
  empty := ⟨[]⟩
  vacant? m name :=
    if name ∈ m.toList.map Prod.fst then none
    else some fun value => (⟨m.toList ++ [(name, value)]⟩, m.toList.length)
  getIndexOf m name := m.toList.findIdx? (·.1 = name)
  getIndex m index := m.toList[index]?
  len m := m.toList.length
  iter m := m.toList

instance : LawfulIndexMap Entries where
  iter_empty := rfl
  vacant?_eq_none m name := by simp [IndexMap.vacant?, IndexMap.iter]
  iter_insert h value := by
    simp only [IndexMap.vacant?] at h
    split at h
    · contradiction
    · obtain rfl := Option.some.inj h
      rfl
  index_insert h value := by
    simp only [IndexMap.vacant?] at h
    split at h
    · contradiction
    · obtain rfl := Option.some.inj h
      rfl
  getIndexOf_eq _ _ := rfl
  getIndex_eq _ _ := rfl
  len_eq _ := rfl

/-- A table of names, each with its index and its value. -/
structure Symtab (M : Type → Type) (V : Type) where
  tab : M V

namespace Symtab

variable {M : Type → Type} [IndexMap M] {V : Type}

def empty : Symtab M V := ⟨IndexMap.empty⟩

/-- Takes in a new name, which gets the next index. A name that is there already keeps its value. -/
def insertNew (s : Symtab M V) (name : String) (value : V) : Option Nat × Symtab M V :=
  match IndexMap.vacant? s.tab name with
  | none => (none, s)
  | some insert =>
    let (tab, index) := insert value
    (some index, ⟨tab⟩)

variable (s : Symtab M V)

def idx (name : String) : Option Nat := IndexMap.getIndexOf s.tab name

def sym (index : Nat) : Option String := (IndexMap.getIndex s.tab index).map Prod.fst

def len : Nat := IndexMap.len s.tab

def iter : List (String × V) := IndexMap.iter s.tab

variable {s}

/-- A name that is not taken in leaves the table as it was. -/
theorem insertNew_refused {name : String} {value : V} (h : (s.insertNew name value).1 = none) :
    (s.insertNew name value).2 = s := by
  unfold insertNew at h ⊢
  split
  · rfl
  · rename_i insert hvacant
    simp [hvacant] at h

variable [LawfulIndexMap M]

@[simp] theorem iter_empty : (empty : Symtab M V).iter = [] := LawfulIndexMap.iter_empty

theorem len_eq : s.len = s.iter.length := LawfulIndexMap.len_eq s.tab

theorem sym_eq (index : Nat) : s.sym index = s.iter[index]?.map Prod.fst := by
  rw [sym, LawfulIndexMap.getIndex_eq, iter]

theorem idx_eq (name : String) : s.idx name = s.iter.findIdx? (·.1 = name) :=
  LawfulIndexMap.getIndexOf_eq s.tab name

theorem idx_eq_none {name : String} : s.idx name = none ↔ name ∉ s.iter.map Prod.fst := by
  simp only [idx_eq, List.findIdx?_eq_none_iff, List.mem_map, not_exists, not_and]
  constructor
  · intro h e he hname
    simpa [hname] using h e he
  · intro h e he
    simpa using h e he

/-- The names that are not taken in are the ones that are there. -/
theorem insertNew_eq_none {name : String} {value : V} :
    (s.insertNew name value).1 = none ↔ name ∈ s.iter.map Prod.fst := by
  rw [iter, ← LawfulIndexMap.vacant?_eq_none]
  unfold insertNew
  split <;> simp [*]

/-- Under the index of a name its entry is found. -/
theorem getElem?_iter_of_idx {name : String} {index : Nat} (h : s.idx name = some index) :
    ∃ value, s.iter[index]? = some (name, value) := by
  rw [idx_eq] at h
  obtain ⟨hlt, hname, -⟩ := List.findIdx?_eq_some_iff_getElem.mp h
  refine ⟨s.iter[index].2, ?_⟩
  rw [List.getElem?_eq_getElem hlt, ← of_decide_eq_true hname]

/-- The index of a name leads back to it. -/
theorem sym_of_idx {name : String} {index : Nat} (h : s.idx name = some index) :
    s.sym index = some name := by
  obtain ⟨value, hentry⟩ := getElem?_iter_of_idx h
  rw [sym_eq, hentry, Option.map_some]

/-- A name that is taken in goes behind the others. -/
theorem insertNew_eq_some {name : String} {value : V} {index : Nat}
    (h : (s.insertNew name value).1 = some index) :
    index = s.len ∧ (s.insertNew name value).2.iter = s.iter ++ [(name, value)] := by
  unfold insertNew at h ⊢
  split at h
  · contradiction
  · rename_i insert hvacant
    obtain rfl := Option.some.inj h
    exact ⟨(LawfulIndexMap.index_insert hvacant value).trans len_eq.symm,
      LawfulIndexMap.iter_insert hvacant value⟩

end Symtab

end SimpleLR
