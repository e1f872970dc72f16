import SimpleLR.Proofs.Item.Basic
import SimpleLR.Proofs.Iterate

/-!
# What a closure holds

The closure of some items holds exactly these items and what their dots call for, directly or through
other items. The search for it comes to its end because every step takes an item off the pending ones,
and an item that comes to them is the initial item of a production that had not been met.
-/
namespace SimpleLR

/-- An item is given, or the dot of such an item calls for it. -/
inductive Calls (g : Grammar) (items : List Item) : Item → Prop
  | given {i : Item} (h : i ∈ items) : Calls g items i
  | predicted {i j : Item} (h : Calls g items i) (hj : j ∈ Expansion.predictions g i) :
      Calls g items j

namespace Expansion

variable {g : Grammar} {items : List Item}

theorem mem_items_add {e : Expansion} {i x : Item} :
    x ∈ (e.add i).items ↔ x = i ∨ x ∈ e.items := by
  rw [add]
  split
  · rename_i h
    have := OrdSet.contains_iff_mem.mp h
    constructor
    · exact .inr
    · rintro (rfl | hx) <;> assumption
  · exact OrdSet.mem_insert

theorem mem_pending_add {e : Expansion} {i x : Item} (h : x ∈ e.pending ∨ x = i ∧ x ∉ e.items) :
    x ∈ (e.add i).pending := by
  rw [add]
  split
  · rename_i hi
    rcases h with h | ⟨rfl, hx⟩
    · exact h
    · exact absurd (OrdSet.contains_iff_mem.mp hi) hx
  · rcases h with h | ⟨rfl, _⟩
    · exact List.mem_cons_of_mem i h
    · exact List.mem_cons_self

theorem mem_items_foldl_add {e : Expansion} {is : List Item} {x : Item} :
    x ∈ (is.foldl add e).items ↔ x ∈ is ∨ x ∈ e.items := by
  induction is generalizing e with
  | nil => simp
  | cons i is ih =>
    rw [List.foldl_cons, ih, mem_items_add, List.mem_cons, or_assoc, or_left_comm]

theorem mem_pending_foldl_add {e : Expansion} {is : List Item} {x : Item}
    (h : x ∈ e.pending ∨ x ∈ is ∧ x ∉ e.items) : x ∈ (is.foldl add e).pending := by
  induction is generalizing e with
  | nil => simpa using h
  | cons i is ih =>
    rw [List.foldl_cons]
    apply ih
    rcases h with h | ⟨hx, hn⟩
    · exact .inl (mem_pending_add (.inl h))
    · by_cases hxi : x = i
      · exact .inl (mem_pending_add (.inr ⟨hxi, hn⟩))
      · have hxs : x ∈ is := (List.mem_cons.mp hx).resolve_left hxi
        have hno : x ∉ (e.add i).items := by
          intro hm
          rcases mem_items_add.mp hm with h | h
          · exact hxi h
          · exact hn h
        exact .inr ⟨hxs, hno⟩

theorem pending_mem_foldl_add {e : Expansion} (he : ∀ x ∈ e.pending, x ∈ e.items) (is : List Item) :
    ∀ x ∈ (is.foldl add e).pending, x ∈ (is.foldl add e).items := by
  induction is generalizing e with
  | nil => exact he
  | cons i is ih =>
    rw [List.foldl_cons]
    apply ih
    intro x hx
    apply mem_items_add.mpr
    rw [add] at hx
    split at hx
    · exact .inr (he x hx)
    · exact (List.mem_cons.mp hx).imp_right (he x)

/-- What holds of every closure in the making of some items. -/
structure Sound (g : Grammar) (items : List Item) (e : Expansion) : Prop where
  given : ∀ i ∈ items, i ∈ e.items
  called : ∀ i ∈ e.items, Calls g items i
  /-- What the dot of an item calls for is there unless the item is pending. -/
  closed : ∀ i ∈ e.items, i ∈ e.pending ∨ ∀ j ∈ predictions g i, j ∈ e.items
  pending_mem : ∀ i ∈ e.pending, i ∈ e.items

theorem sound_ofItems (g : Grammar) (items : List Item) : (ofItems items).Sound g items where
  given _ h := OrdSet.mem_ofList.mpr h
  called _ h := .given (OrdSet.mem_ofList.mp h)
  closed _ h := .inl (List.mem_reverse.mpr h)
  pending_mem _ h := List.mem_reverse.mp h

/-- The step of a search, with the pending item in front named. -/
theorem step_eq_some {e t : Expansion} (h : e.step g = some t) :
    ∃ i rest, e.pending = i :: rest ∧
      t = (predictions g i).foldl add { e with pending := rest } := by
  rw [step] at h
  split at h
  · contradiction
  · rename_i i rest hp
    exact ⟨i, rest, hp, (Option.some.inj h).symm⟩

theorem Sound.step {e t : Expansion} (he : e.Sound g items) (h : e.step g = some t) :
    t.Sound g items := by
  obtain ⟨i, rest, hp, rfl⟩ := step_eq_some h
  have hi : i ∈ e.items := he.pending_mem i (hp ▸ List.mem_cons_self)
  constructor
  · intro x hx
    exact mem_items_foldl_add.mpr (.inr (he.given x hx))
  · intro x hx
    rcases mem_items_foldl_add.mp hx with hx | hx
    · exact .predicted (he.called i hi) hx
    · exact he.called x hx
  · intro x hx
    by_cases hold : x ∈ e.items
    · rcases he.closed x hold with hpend | hall
      · rw [hp] at hpend
        rcases List.mem_cons.mp hpend with rfl | hrest
        · exact .inr fun j hj => mem_items_foldl_add.mpr (.inl hj)
        · exact .inl (mem_pending_foldl_add (.inl hrest))
      · exact .inr fun j hj => mem_items_foldl_add.mpr (.inr (hall j hj))
    · rcases mem_items_foldl_add.mp hx with hnew | hx
      · exact .inl (mem_pending_foldl_add (.inr ⟨hnew, hold⟩))
      · exact absurd hx hold
  · have hrest : ∀ x ∈ rest, x ∈ e.items := fun x hx =>
      he.pending_mem x (hp ▸ List.mem_cons_of_mem i hx)
    exact pending_mem_foldl_add hrest _

/-- How many steps a search can still take: its pending items, and the productions whose initial
items it has not met. -/
def stepsLeft (g : Grammar) (e : Expansion) : Nat :=
  e.pending.length + g.productions.countP fun p => !e.items.contains (Item.initial p)

theorem stepsLeft_add_le {p : Production} (hp : p ∈ g.productions) (e : Expansion) :
    (e.add (Item.initial p)).stepsLeft g ≤ e.stepsLeft g := by
  rw [add]
  split
  · exact Nat.le_refl _
  · rename_i hn
    have hlt : g.productions.countP (fun q => !(e.items.insert (Item.initial p)).contains
        (Item.initial q)) < g.productions.countP (fun q => !e.items.contains (Item.initial q)) := by
      apply countP_lt_countP _ hp (by simpa using hn)
      · simpa using OrdSet.contains_iff_mem.mpr (OrdSet.mem_insert.mpr (.inl rfl))
      · intro q _ hq
        simp only [Bool.not_eq_true', Bool.eq_false_iff, ne_eq, OrdSet.contains_iff_mem] at hq ⊢
        exact fun h => hq (OrdSet.mem_insert.mpr (.inr h))
    simp only [stepsLeft, List.length_cons]
    omega

theorem stepsLeft_foldl_add_le {ps : List Production} (hps : ∀ p ∈ ps, p ∈ g.productions)
    (e : Expansion) : ((ps.map Item.initial).foldl add e).stepsLeft g ≤ e.stepsLeft g := by
  induction ps generalizing e with
  | nil => exact Nat.le_refl _
  | cons p ps ih =>
    rw [List.map_cons, List.foldl_cons]
    exact Nat.le_trans (ih (fun q hq => hps q (List.mem_cons_of_mem p hq)) _)
      (stepsLeft_add_le (hps p List.mem_cons_self) e)

theorem stepsLeft_step_lt {e t : Expansion} (h : e.step g = some t) :
    t.stepsLeft g < e.stepsLeft g := by
  obtain ⟨i, rest, hp, rfl⟩ := step_eq_some h
  have hlt : ({ e with pending := rest } : Expansion).stepsLeft g < e.stepsLeft g := by
    simp [stepsLeft, hp]
  apply Nat.lt_of_le_of_lt _ hlt
  rw [predictions]
  split
  · exact Nat.le_refl _
  · exact stepsLeft_foldl_add_le (fun p hp => (Grammar.mem_productionsOf.mp hp).1) _

/-- Each given item and each production costs one step at most. -/
theorem stepsLeft_ofItems_le (g : Grammar) (items : List Item) :
    (ofItems items).stepsLeft g ≤ (ofItems items).items.size + g.productions.length := by
  have hlen : (ofItems items).pending.length = (ofItems items).items.size := List.length_reverse
  have := List.countP_le_length (l := g.productions)
    (p := fun p => !(ofItems items).items.contains (Item.initial p))
  simp only [stepsLeft]
  omega

end Expansion

variable {g : Grammar} {items : List Item}

/-- The search for a closure comes to its end within its bound. -/
theorem closure_endsAfter (g : Grammar) (items : List Item) :
    ∃ n ≤ (Expansion.ofItems items).items.size + g.productions.length,
      EndsAfter (Expansion.step g) n (Expansion.ofItems items)
        (iterate (Expansion.step g) ((Expansion.ofItems items).items.size + g.productions.length)
          (Expansion.ofItems items)) :=
  iterate_endsAfter (fun _ => True) (fun _ _ _ _ => trivial) (Expansion.stepsLeft g)
    (fun _ _ _ h => Expansion.stepsLeft_step_lt h) trivial (Expansion.stepsLeft_ofItems_le g items)

/-- It has nothing pending there. -/
theorem closure_pending (g : Grammar) (items : List Item) :
    (iterate (Expansion.step g) ((Expansion.ofItems items).items.size + g.productions.length)
      (Expansion.ofItems items)).pending = [] := by
  obtain ⟨n, -, hends⟩ := closure_endsAfter g items
  have hend := hends.step_eq_none
  rw [Expansion.step] at hend
  split at hend
  · assumption
  · contradiction

/-- A closure holds what is given and what the dots call for, and nothing else. -/
theorem mem_closure {i : Item} : i ∈ closure g items ↔ Calls g items i := by
  have hsound := iterate_induction (Expansion.Sound g items) (fun _ _ h hs => h.step hs)
    ((Expansion.ofItems items).items.size + g.productions.length)
    (Expansion.sound_ofItems g items)
  constructor
  · exact hsound.called i
  · intro h
    induction h with
    | given h => exact hsound.given _ h
    | predicted _ hj ih =>
      rcases hsound.closed _ ih with hp | hall
      · rw [closure_pending] at hp
        exact absurd hp List.not_mem_nil
      · exact hall _ hj

theorem closure_given {i : Item} (h : i ∈ items) : i ∈ closure g items :=
  mem_closure.mpr (.given h)

theorem closure_predicted {p q : Production} {d : Nat} (hp : p ∈ g.productions)
    (hq : q ∈ g.productions) (h : p.itemAt d ∈ closure g items) (hd : p.rhs[d]? = some q.lhs) :
    q.itemAt 0 ∈ closure g items := by
  have hnext : (p.itemAt d).next? g = some q.lhs := by rw [Production.itemAt_next? hp, hd]
  apply mem_closure.mpr
  exact .predicted (mem_closure.mp h) (mem_predictions.mpr ⟨q, hq, hnext, rfl⟩)

/-- Nothing is called for unless something is given. -/
theorem Calls.exists_given {i : Item} (h : Calls g items i) : ∃ j, j ∈ items := by
  induction h with
  | given h => exact ⟨_, h⟩
  | predicted _ _ ih => exact ih

/-- A goto is empty unless the symbol stands after a dot. -/
theorem goto_isEmpty_eq_false {set : ItemSet} {X : Nat} :
    (goto g set X).isEmpty = false ↔ ∃ i ∈ set, i.next? g = some X := by
  rw [OrdSet.isEmpty_eq_false_iff]
  constructor
  · rintro ⟨j, hj⟩
    obtain ⟨_, hmove⟩ := (mem_closure.mp hj).exists_given
    obtain ⟨i, hi, hnext, -⟩ := mem_movesOn.mp hmove
    exact ⟨i, hi, hnext⟩
  · rintro ⟨i, hi, hnext⟩
    exact ⟨i.advance, closure_given (mem_movesOn.mpr ⟨i, hi, hnext, rfl⟩)⟩

/-- The closure of items of a grammar has such items only. -/
theorem Calls.belongsTo (hitems : ∀ i ∈ items, i.BelongsTo g) {i : Item} (h : Calls g items i) :
    i.BelongsTo g := by
  induction h with
  | given h => exact hitems _ h
  | predicted _ hj _ =>
    obtain ⟨p, hp, -, rfl⟩ := mem_predictions.mp hj
    exact Production.itemAt_belongsTo hp (Nat.zero_le _)

theorem movesOn_belongsTo {set : ItemSet} (hset : ∀ i ∈ set, i.BelongsTo g) {symbol : Nat} :
    ∀ i ∈ movesOn (moves g set) symbol, i.BelongsTo g := by
  intro j hj
  obtain ⟨i, hi, hnext, rfl⟩ := mem_movesOn.mp hj
  obtain ⟨p, hp, d, -, rfl⟩ := hset i hi
  rw [Production.itemAt_next? hp] at hnext
  exact Production.itemAt_belongsTo hp (List.getElem?_eq_some_iff.mp hnext).1

end SimpleLR
