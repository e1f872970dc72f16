import SimpleLR.Proofs.Facts.Least
import SimpleLR.Proofs.Facts.Reports

/-!
# Passes that end and end stable

The three passes for nullable nonterminals, FIRST sets and FOLLOW sets put in one element after another, and
raise a flag whenever one is new. They leave out what cannot be new: a marked left side, a set that would
be put into itself, whatever stands behind a symbol that is not nullable. Their sweeps do what the sweeps
without a flag do, and so each of the passes comes to the same facts.
-/
namespace SimpleLR

namespace Flagged

section Sets

variable {α : Type} [Ord α] [Std.TransOrd α] {c : Nat}

/-- Puts an element into the set at a place, and raises the flag if it is new there. -/
def put (c : Nat) (s : Array (OrdSet α) × Bool) (x : α) : Array (OrdSet α) × Bool :=
  (s.1.modify c (·.insert x), s.2 || !(setAt s.1 c).contains x)

/-- Puts the elements of the set at one place into the set at another place. -/
def pour (source target : Nat) (s : Array (OrdSet α) × Bool) : Array (OrdSet α) × Bool :=
  if source = target then s else (setAt s.1 source).toList.foldl (put target) s

variable [Std.LawfulEqOrd α]

theorem modify_insertAll_congr {sets : Array (OrdSet α)} {xs ys : List α}
    (h : ∀ x, x ∉ setAt sets c → (x ∈ xs ↔ x ∈ ys)) :
    sets.modify c (·.insertAll xs) = sets.modify c (·.insertAll ys) := by
  apply setAt_ext (by simp)
  intro d x
  simp only [mem_setAt_modify]
  by_cases hx : x ∈ setAt sets d
  · simp [hx]
  · simp only [hx, false_or]
    apply and_congr_right
    rintro rfl
    exact and_congr_right fun _ => h x hx

theorem modify_insertAll_eq_self {sets : Array (OrdSet α)} {xs : List α}
    (h : ∀ x ∈ xs, x ∈ setAt sets c) : sets.modify c (·.insertAll xs) = sets := by
  apply setAt_ext (by simp)
  intro d x
  rw [mem_setAt_modify, or_iff_left_iff_imp]
  rintro ⟨rfl, -, hx⟩
  exact h x hx

theorem modify_insertAll_append (sets : Array (OrdSet α)) (xs ys : List α) :
    (sets.modify c (·.insertAll xs)).modify c (·.insertAll ys) =
      sets.modify c (·.insertAll (xs ++ ys)) := by
  apply setAt_ext (by simp)
  intro d x
  simp only [mem_setAt_modify, Array.size_modify, List.mem_append, and_or_left, or_assoc]

variable {n : Nat} {domain : List α}

/-- Elements of the domain are added to sets, and the flag is raised if one of them is new. -/
abbrev Adds [DecidableEq α] (n : Nat) (domain : List α)
    (f' : Array (OrdSet α) × Bool → Array (OrdSet α) × Bool)
    (f : Array (OrdSet α) → Array (OrdSet α)) : Prop :=
  Reports (Within n domain) (fun s (k : Nat × α) => k.2 ∈ setAt s k.1) f' f

omit [Std.LawfulEqOrd α] in
/-- Sets of one domain are known by their elements. -/
theorem within_ext (s t : Array (OrdSet α)) (hs : Within n domain s) (ht : Within n domain t)
    (h : ∀ k : Nat × α, k.2 ∈ setAt s k.1 ↔ k.2 ∈ setAt t k.1) : s = t :=
  setAt_ext (hs.1.trans ht.1.symm) fun c x => h (c, x)

variable [DecidableEq α] (hc : c < n)

include hc

theorem put_adds {x : α} (hx : x ∈ domain) :
    Adds n domain (put c · x) fun s => s.modify c (·.insertAll [x]) where
  eq s flag hs := by
    have hchanged : (!(setAt s c).contains x) = decide (s.modify c (·.insertAll [x]) ≠ s) := by
      rw [Bool.eq_iff_iff, Bool.not_eq_true', Bool.eq_false_iff, ne_eq, OrdSet.contains_iff_mem,
        decide_eq_true_eq, ne_eq, not_iff_not]
      constructor
      · intro hmem
        exact modify_insertAll_eq_self (by simpa using hmem)
      · intro hsame
        rw [← hsame]
        exact mem_setAt_modify.mpr (.inr ⟨rfl, hs.1 ▸ hc, List.mem_singleton_self x⟩)
    rw [put, hchanged]
    rfl
  keeps s hs := hs.modify (by simpa using hx)
  grows s _ k hk := mem_setAt_modify.mpr (.inl hk)

theorem putAll_adds {xs : List α} (hxs : ∀ x ∈ xs, x ∈ domain) :
    Adds n domain (fun s => xs.foldl (put c) s) fun s => s.modify c (·.insertAll xs) := by
  apply (Reports.foldl within_ext fun x hx => put_adds hc (hxs x hx)).congr
  intro s hs
  clear hxs hs
  induction xs generalizing s with
  | nil => exact (modify_insertAll_eq_self (by simp)).symm
  | cons x xs ih =>
    rw [List.foldl_cons, ih, modify_insertAll_append, List.singleton_append]

variable (domain) in
/-- To pour a set into itself would change nothing. -/
theorem pour_adds (source : Nat) :
    Adds n domain (pour source c) fun s => s.modify c (·.insertAll (setAt s source).toList) := by
  by_cases h : source = c
  · subst h
    have hpour : pour source source = (id : Array (OrdSet α) × Bool → _) := by
      funext s
      simp [pour]
    rw [hpour]
    exact Reports.id.congr fun s _ => (modify_insertAll_eq_self fun _ hx => hx).symm
  · have hpour : pour source c = fun s : Array (OrdSet α) × Bool =>
        (setAt s.1 source).toList.foldl (put c) s := by
      funext s
      simp [pour, h]
    rw [hpour]
    exact Reports.diagonal (G := fun t s => (setAt t source).toList.foldl (put c) s)
      (F := fun t s => s.modify c (·.insertAll (setAt t source).toList))
      fun s hs => putAll_adds hc fun x hx => hs.2 source x hx

end Sets

/-! The sweeps. -/

/-- Draws the conclusion of a production, unless its left side is marked. -/
def visitNullable (g : Grammar) (c : Nullable.Marks × Bool) (p : Production) :
    Nullable.Marks × Bool :=
  if Nullable.holds c.1 p.lhs then c
  else if p.rhs.all fun X => g.isNonterminal X && Nullable.holds c.1 X then
    (c.1.setIfInBounds p.lhs true, true)
  else c

def nullable (g : Grammar) (ps : List Production) (c : Nullable.Marks × Bool) :
    Nullable.Marks × Bool :=
  ps.foldl (visitNullable g) c

/-- Scans a string for what it can begin with, up to the first symbol that is not nullable. -/
def scanFirst (g : Grammar) (marks : Nullable.Marks) (lhs : Nat) :
    List Nat → First.Sets × Bool → First.Sets × Bool
  | [], c => c
  | X :: rest, c =>
    if g.isTerminal X then put lhs c X
    else if Nullable.holds marks X then scanFirst g marks lhs rest (pour X lhs c)
    else pour X lhs c

def firsts (g : Grammar) (marks : Nullable.Marks) (ps : List Production) (c : First.Sets × Bool) :
    First.Sets × Bool :=
  ps.foldl (fun c p => scanFirst g marks p.lhs p.rhs c) c

/-- Scans a string for what can come after the symbol before it, and says whether all of it is nullable. -/
def scanSuffix (g : Grammar) (marks : Nullable.Marks) (firsts : First.Sets) (A : Nat) :
    List Nat → Follow.Sets × Bool → (Follow.Sets × Bool) × Bool
  | [], c => (c, true)
  | X :: rest, c =>
    if g.isTerminal X then (put A c (.terminal X), false)
    else
      let c := ((First.setOf firsts X).toList.map .terminal).foldl (put A) c
      if Nullable.holds marks X then scanSuffix g marks firsts A rest c else (c, false)

/-- Scans a right side for its nonterminals and what can come after them. -/
def scanFollow (g : Grammar) (marks : Nullable.Marks) (firsts : First.Sets) (lhs : Nat) :
    List Nat → Follow.Sets × Bool → Follow.Sets × Bool
  | [], c => c
  | A :: rest, c =>
    if g.isTerminal A then scanFollow g marks firsts lhs rest c
    else
      let r := scanSuffix g marks firsts A rest c
      scanFollow g marks firsts lhs rest (if r.2 then pour lhs A r.1 else r.1)

def follows (g : Grammar) (marks : Nullable.Marks) (firsts : First.Sets) (ps : List Production)
    (c : Follow.Sets × Bool) : Follow.Sets × Bool :=
  ps.foldl (fun c p => scanFollow g marks firsts p.lhs p.rhs c) c

variable {g : Grammar} {ps : List Production} {marks : Nullable.Marks} {sets : First.Sets}

theorem visitNullable_reports {p : Production} (hp : p ∈ g.productions) :
    Reports (fun m : Nullable.Marks => m.size = g.nonterminalCount)
      (fun m A => Nullable.holds m A = true) (visitNullable g · p) (Nullable.visit · p) where
  eq m flag hm := by
    have hlhs : p.lhs < m.size := hm ▸ Grammar.lhs_lt hp
    have hall : (p.rhs.all fun X => g.isNonterminal X && Nullable.holds m X) =
        p.rhs.all (Nullable.holds m) := by
      congr 1
      funext X
      by_cases hX : X < g.nonterminalCount <;> simp [Grammar.isNonterminal, Nullable.holds, hX, hm]
    by_cases hmarked : Nullable.holds m p.lhs = true
    · simp [visitNullable, hmarked, Nullable.visit_eq_self hmarked]
    · by_cases h : p.rhs.all (Nullable.holds m) = true
      · have hne : Nullable.visit m p ≠ m := fun hsame =>
          hmarked (hsame ▸ Nullable.holds_visit.mpr (.inr ⟨rfl, hlhs, h⟩))
        rw [Nullable.visit, if_pos h] at hne ⊢
        simp [visitNullable, hmarked, hall, h, hne]
      · simp [visitNullable, hmarked, hall, h, Nullable.visit]
  keeps m hm := (Nullable.size_visit m p).trans hm
  grows m _ A hA := Nullable.holds_visit.mpr (.inl hA)

theorem nullable_reports (hps : ∀ p ∈ ps, p ∈ g.productions) :
    Reports (fun m : Nullable.Marks => m.size = g.nonterminalCount)
      (fun m A => Nullable.holds m A = true) (nullable g ps) (Nullable.sweep ps) := by
  apply Reports.foldl
  · intro s t hs ht h
    apply Nullable.holds_ext (hs.trans ht.symm)
    exact fun A _ => Bool.eq_iff_iff.mpr (h A)
  · exact fun p hp => visitNullable_reports (hps p hp)

/-- What is put in for one nonterminal meanwhile is all that a string can begin with in addition. -/
theorem mem_ofString_modify {lhs x : Nat} {xs u : List Nat}
    (hx : x ∈ First.ofString g marks (sets.modify lhs (·.insertAll xs)) u) :
    x ∈ First.ofString g marks sets u ∨ x ∈ xs := by
  induction u with
  | nil => exact absurd hx List.not_mem_nil
  | cons X u ih =>
    rw [First.ofString] at hx ⊢
    by_cases hX : g.isTerminal X = true
    · rw [if_pos hX] at hx ⊢
      exact .inl hx
    · rw [if_neg hX, List.mem_append] at hx ⊢
      rcases hx with hx | hx
      · rcases mem_setAt_modify.mp hx with hx | ⟨-, -, hx⟩
        · exact .inl (.inl hx)
        · exact .inr hx
      · by_cases hn : Nullable.holds marks X = true
        · rw [if_pos hn] at hx ⊢
          exact (ih hx).imp_left .inr
        · rw [if_neg hn] at hx
          exact absurd hx List.not_mem_nil

theorem scanFirst_adds {lhs : Nat} (hlhs : lhs < g.nonterminalCount) {u : List Nat}
    (hu : ∀ X ∈ u, X < g.symbolCount) :
    Adds g.nonterminalCount g.terminals (scanFirst g marks lhs u)
      fun sets => sets.modify lhs (·.insertAll (First.ofString g marks sets u)) := by
  induction u with
  | nil => exact Reports.id.congr fun s _ => (modify_insertAll_eq_self (by simp [First.ofString])).symm
  | cons X u ih =>
    have hrest := ih fun Y hY => hu Y (List.mem_cons_of_mem X hY)
    have hpour := pour_adds g.terminals hlhs X
    by_cases hX : g.isTerminal X = true
    · have hterminal : X ∈ g.terminals :=
        Grammar.mem_terminals.mpr ⟨by simpa [Grammar.isTerminal] using hX, hu X List.mem_cons_self⟩
      simpa [scanFirst, First.ofString, hX] using put_adds hlhs hterminal
    · by_cases hn : Nullable.holds marks X = true
      · have hscan : scanFirst g marks lhs (X :: u) = scanFirst g marks lhs u ∘ pour X lhs := by
          funext c
          simp [scanFirst, hX, hn]
        rw [hscan]
        apply (hpour.comp within_ext hrest).congr
        intro s _
        -- The rest is scanned with more in the set of `lhs`, and what that adds is in there already.
        rw [Function.comp_apply, modify_insertAll_append]
        apply modify_insertAll_congr
        intro x _
        rw [First.ofString, if_neg hX, if_pos hn, List.mem_append, List.mem_append]
        constructor
        · rintro (hx | hx)
          · exact .inl hx
          · exact (mem_ofString_modify hx).symm
        · apply Or.imp_right
          exact First.ofString_mono fun c y hy => mem_setAt_modify.mpr (.inl hy)
      · have hscan : scanFirst g marks lhs (X :: u) = pour X lhs := by
          funext c
          simp [scanFirst, hX, hn]
        rw [hscan]
        apply hpour.congr
        intro s _
        rw [First.ofString, if_neg hX, if_neg hn, List.append_nil]
        rfl

theorem firsts_adds (hps : ∀ p ∈ ps, p ∈ g.productions) :
    Adds g.nonterminalCount g.terminals (firsts g marks ps) (First.sweep g marks ps) :=
  Reports.foldl within_ext fun p hp =>
    scanFirst_adds (Grammar.lhs_lt (hps p hp)) fun _ hc => (Grammar.rhs_lt (hps p hp) hc).1

section Follow

variable (hmarks : marks.size = g.nonterminalCount)

include hmarks

theorem scanSuffix_eq (A : Nat) (u : List Nat) (c : Follow.Sets × Bool) :
    scanSuffix g marks sets A u c =
      (((First.ofString g marks sets u).map .terminal).foldl (put A) c,
        u.all (Nullable.holds marks)) := by
  induction u generalizing c with
  | nil => rfl
  | cons X u ih =>
    by_cases hX : g.isTerminal X = true
    · have hno : Nullable.holds marks X = false := by
        have hle : marks.size ≤ X := by simpa [Grammar.isTerminal, hmarks] using hX
        simp [Nullable.holds, hle]
      simp [scanSuffix, First.ofString, hX, hno]
    · by_cases hn : Nullable.holds marks X = true
      · simp [scanSuffix, First.ofString, hX, hn, ih]
      · simp [scanSuffix, First.ofString, hX, hn]

variable (hsets : Within g.nonterminalCount g.terminals sets)

include hsets

theorem scanFollow_adds (lhs : Nat) {u : List Nat} (hu : ∀ X ∈ u, X < g.symbolCount) :
    Adds g.nonterminalCount (Follow.lookaheads g) (scanFollow g marks sets lhs u)
      (Follow.walk g marks sets lhs u) := by
  induction u with
  | nil => exact Reports.id
  | cons A u ih =>
    have hrest : ∀ X ∈ u, X < g.symbolCount := fun X hX => hu X (List.mem_cons_of_mem A hX)
    by_cases hA : g.isTerminal A = true
    · simpa [scanFollow, Follow.walk, hA] using ih hrest
    · have hlt : A < g.nonterminalCount := by simpa [Grammar.isTerminal] using hA
      have hlookaheads : ∀ x ∈ (First.ofString g marks sets u).map .terminal,
          x ∈ Follow.lookaheads g := by
        intro x hx
        obtain ⟨t, ht, rfl⟩ := List.mem_map.mp hx
        apply List.mem_append_left
        exact List.mem_map.mpr ⟨t, First.ofString_terminals hsets hrest ht, rfl⟩
      have hput := putAll_adds hlt hlookaheads
      by_cases hall : u.all (Nullable.holds marks) = true
      · have hscan : scanFollow g marks sets lhs (A :: u) = scanFollow g marks sets lhs u ∘
            pour lhs A ∘ fun c => ((First.ofString g marks sets u).map .terminal).foldl (put A) c := by
          funext c
          simp [scanFollow, hA, scanSuffix_eq hmarks, hall]
        rw [hscan]
        apply ((hput.comp within_ext (pour_adds _ hlt lhs)).comp within_ext (ih hrest)).congr
        intro s _
        rw [Function.comp_apply, Function.comp_apply, modify_insertAll_append, Follow.walk, if_neg hA]
        congr 1
        apply modify_insertAll_congr
        intro x _
        simp only [Follow.after, hall, if_true, List.mem_append, ← OrdSet.mem_iff, mem_setAt_modify]
        tauto
      · have hscan : scanFollow g marks sets lhs (A :: u) = scanFollow g marks sets lhs u ∘
            fun c => ((First.ofString g marks sets u).map .terminal).foldl (put A) c := by
          funext c
          simp [scanFollow, hA, scanSuffix_eq hmarks, hall]
        rw [hscan]
        apply (hput.comp within_ext (ih hrest)).congr
        intro s _
        simp [Follow.walk, hA, Follow.after, hall]

theorem follows_adds (hps : ∀ p ∈ ps, p ∈ g.productions) :
    Adds g.nonterminalCount (Follow.lookaheads g) (follows g marks sets ps)
      (Follow.sweep g marks sets ps) :=
  Reports.foldl within_ext fun p hp =>
    scanFollow_adds hmarks hsets p.lhs fun _ hc => (Grammar.rhs_lt (hps p hp) hc).1

end Follow

end Flagged

/-- One lookahead is known before the first sweep, so there is a sweep less than lookaheads in all sets. -/
theorem Follow.countP_seed_pos (g : Grammar) :
    0 < (places g.nonterminalCount (lookaheads g)).countP
      fun k => (setAt (seed g) k.1).contains k.2 := by
  apply List.countP_pos_iff.mpr
  refine ⟨(g.augmentedStart, .endOfInput), ?_, ?_⟩
  · exact mem_places.mpr ⟨Nat.lt_succ_self _, by simp [lookaheads]⟩
  · exact OrdSet.contains_iff_mem.mpr (mem_setOf_seed.mpr ⟨rfl, rfl⟩)

namespace Facts

/-- The passes over any productions of a grammar come to the facts that these productions bring about,
after at most one sweep for each mark or element that there could be and a last one. The end of the input
in one of the FOLLOW sets is there beforehand. -/
theorem passes_settle (g : Grammar) {ids : List Nat} (h : ∀ id ∈ ids, id < g.productions.length) :
    ∃ ps f, ids.mapM g.production? = some ps ∧ inOrder? g ids = some f ∧
      Settles (Flagged.nullable g ps) (g.nonterminalCount + 1)
        (Array.replicate g.nonterminalCount false) f.nullable ∧
      Settles (Flagged.firsts g f.nullable ps) (g.nonterminalCount * g.terminalCount + 1)
        (Array.replicate g.nonterminalCount .empty) f.firsts ∧
      Settles (Flagged.follows g f.nullable f.firsts ps)
        (g.nonterminalCount * (g.terminalCount + 1)) (Follow.seed g) f.follows := by
  obtain ⟨ps, hps, hmem⟩ := exists_productions h
  have hg : ∀ p ∈ ps, p ∈ g.productions := fun p hp => ((hmem p).mp hp).1
  have hmarks : (Nullable.ofProductions g ps).size = g.nonterminalCount :=
    Nullable.size_ofProductions
  have hfirsts : Within g.nonterminalCount g.terminals
      (First.ofProductions g (Nullable.ofProductions g ps) ps) := First.within_ofProductions hg
  have hfirstPlaces : (places g.nonterminalCount g.terminals).length =
      g.nonterminalCount * g.terminalCount := by
    rw [length_places, Grammar.terminals, List.length_range']
  have hfollowPlaces : (places g.nonterminalCount (Follow.lookaheads g)).length =
      g.nonterminalCount * (g.terminalCount + 1) := by
    rw [length_places, Follow.length_lookaheads]
  refine ⟨ps, _, hps, inOrder?_eq hps, ?_, ?_, ?_⟩
  · apply (Flagged.nullable_reports hg).settles (Nullable.sweep_grows g ps)
    · simp
    · simp
    · rw [List.length_range]
      omega
  · apply (Flagged.firsts_adds hg).settles (First.sweep_grows hg) (within_replicate _ _)
    · exact Nat.le_of_eq hfirstPlaces
    · omega
  · apply (Flagged.follows_adds hmarks hfirsts hg).settles (Follow.sweep_grows hg hfirsts)
      Follow.within_seed
    · exact Nat.le_of_eq hfollowPlaces
    · have hseed := Follow.countP_seed_pos g
      have hle := List.countP_le_length (l := places g.nonterminalCount (Follow.lookaheads g))
        (p := fun k => (setAt (Follow.seed g) k.1).contains k.2)
      omega

/-- The rules of the grammar `S → a S b | ε`, `U → a U` without the first one, and one of them twice. -/
theorem passes_settle_balanced :
    (∀ id ∈ [3, 2, 0, 2], id < Grammar.balanced.productions.length) ∧
      ∃ ps f, [3, 2, 0, 2].mapM Grammar.balanced.production? = some ps ∧
        inOrder? .balanced [3, 2, 0, 2] = some f ∧
        Settles (Flagged.nullable .balanced ps) 4 (Array.replicate 3 false) f.nullable ∧
        Settles (Flagged.firsts .balanced f.nullable ps) 7 (Array.replicate 3 .empty) f.firsts ∧
        Settles (Flagged.follows .balanced f.nullable f.firsts ps) 9 (Follow.seed .balanced)
          f.follows := by
  have hids : ∀ id ∈ [3, 2, 0, 2], id < Grammar.balanced.productions.length := by decide
  exact ⟨hids, passes_settle .balanced hids⟩

end Facts

end SimpleLR
