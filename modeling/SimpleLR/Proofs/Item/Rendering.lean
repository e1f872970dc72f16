import SimpleLR.Grammar.Outline
import SimpleLR.Proofs.Except
import SimpleLR.Proofs.Item.Basic

/-!
# Items as they are shown

An item is shown as words with a space before each, the names of its symbols and a dot among them. The
names may be any texts, so a name can look like the dot. Two items of a production differ by the names
between their dots, which stand behind the dot in one text and in front of it in the other. That makes
the same text just if these names are dots themselves, or dots with a single space between each two.
-/
namespace SimpleLR

/-- The name looks like dots that are shown one after another. -/
def IsDots (name : String) : Prop := ∃ n, name = " ".intercalate (List.replicate (n + 1) ".")

namespace Item

/-- So many dots, each of them as it is shown. -/
def shownDots : Nat → List Char
  | 0 => []
  | n + 1 => ' ' :: '.' :: shownDots n

/-- Names as they are shown, a space before each. -/
def shown (names : List String) : List Char := names.flatMap fun name => ' ' :: name.toList

@[simp] theorem shown_nil : shown [] = [] := rfl

@[simp] theorem shown_cons (name : String) (names : List String) :
    shown (name :: names) = ' ' :: name.toList ++ shown names := rfl

@[simp] theorem shown_append (names names' : List String) :
    shown (names ++ names') = shown names ++ shown names' :=
  List.flatMap_append

theorem toList_intercalate_dots (n : Nat) :
    ' ' :: (" ".intercalate (List.replicate (n + 1) ".")).toList = shownDots (n + 1) := by
  induction n with
  | zero => simp [shownDots]
  | succ n ih =>
    rw [List.replicate_succ] at ih ⊢
    rw [List.replicate_succ, String.intercalate_cons_cons, shownDots, ← ih]
    simp

/-- A name looks like dots if it is shown as some. -/
theorem isDots_iff {name : String} : IsDots name ↔ ∃ n, ' ' :: name.toList = shownDots (n + 1) := by
  refine exists_congr fun n => ?_
  rw [← toList_intercalate_dots, List.cons_inj_right, String.toList_inj]

theorem shownDots_add (m n : Nat) : shownDots (m + n) = shownDots m ++ shownDots n := by
  induction m with
  | zero => simp [shownDots]
  | succ m ih => simp [Nat.succ_add, shownDots, ih]

/-- Only dots can be moved past a dot that is shown. -/
theorem exists_shownDots : (l : List Char) → shownDots 1 ++ l = l ++ shownDots 1 → ∃ n, l = shownDots n
  | [], _ => ⟨0, rfl⟩
  | [c], h => by simp [shownDots] at h
  | c :: d :: l, h => by
    simp only [shownDots, List.cons_append, List.nil_append, List.cons.injEq] at h
    obtain ⟨rfl, rfl, hl⟩ := h
    obtain ⟨n, rfl⟩ := exists_shownDots l (by simpa [shownDots] using hl)
    exact ⟨n + 1, rfl⟩

/-- Dots that are shown come apart in front of a space between two of them. -/
theorem exists_of_append_eq_shownDots {n : Nat} {l l' : List Char} (h : l ++ l' = shownDots n)
    (hl' : ∀ c ∈ l'.head?, c = ' ') : ∃ i j, l = shownDots i ∧ l' = shownDots j := by
  induction n generalizing l with
  | zero =>
    obtain ⟨rfl, rfl⟩ := List.append_eq_nil_iff.mp h
    exact ⟨0, 0, rfl, rfl⟩
  | succ n ih =>
    cases l with
    | nil => exact ⟨0, n + 1, rfl, h⟩
    | cons c l =>
      cases l with
      | nil =>
        simp only [shownDots, List.cons_append, List.nil_append, List.cons.injEq] at h
        obtain ⟨-, rfl⟩ := h
        simp at hl'
      | cons d l =>
        simp only [shownDots, List.cons_append, List.cons.injEq] at h
        obtain ⟨rfl, rfl, h⟩ := h
        obtain ⟨i, j, rfl, rfl⟩ := ih h
        exact ⟨i + 1, j, rfl, rfl⟩

/-- Names are shown as dots if each of them is. -/
theorem exists_shown_eq_iff {names : List String} :
    (∃ n, shown names = shownDots n) ↔ ∀ name ∈ names, IsDots name := by
  induction names with
  | nil => simpa using ⟨0, rfl⟩
  | cons name names ih =>
    rw [List.forall_mem_cons, ← ih, shown_cons]
    constructor
    · rintro ⟨n, h⟩
      have hhead : ∀ c ∈ (shown names).head?, c = ' ' := by
        cases names <;> simp
      obtain ⟨i, j, hname, hnames⟩ := exists_of_append_eq_shownDots h hhead
      cases i with
      | zero => contradiction
      | succ i => exact ⟨isDots_iff.mpr ⟨i, hname⟩, j, hnames⟩
    · rintro ⟨hname, n, hnames⟩
      obtain ⟨i, hname⟩ := isDots_iff.mp hname
      exact ⟨i + 1 + n, by rw [hname, hnames, ← shownDots_add]⟩

theorem dotted_eq {names : List String} {d : Nat} (hd : d ≤ names.length) :
    dotted d names = names.take d ++ "." :: names.drop d := by
  simp [dotted, hd]

/-- The dot can be shown at two places among names if those between look like dots. -/
theorem shown_dotted_eq_iff (names : List String) {d e : Nat} (hde : d ≤ e)
    (he : e ≤ names.length) :
    shown (dotted d names) = shown (dotted e names) ↔ ∀ name ∈ (names.take e).drop d, IsDots name := by
  have htake : names.take e = names.take d ++ (names.take e).drop d := by
    conv_lhs => rw [← List.take_append_drop d (names.take e), List.take_take, Nat.min_eq_left hde]
  have hlength : d ≤ (names.take e).length := by
    rw [List.length_take]
    omega
  have hdrop : names.drop d = (names.take e).drop d ++ names.drop e := by
    conv_lhs => rw [← List.take_append_drop e names, List.drop_append_of_le_length hlength]
  have hfirst : shown (dotted d names) = shown (names.take d) ++
      (shownDots 1 ++ shown ((names.take e).drop d) ++ shown (names.drop e)) := by
    rw [dotted_eq (Nat.le_trans hde he), hdrop]
    simp [shownDots]
  have hsecond : shown (dotted e names) = shown (names.take d) ++
      (shown ((names.take e).drop d) ++ shownDots 1 ++ shown (names.drop e)) := by
    conv_lhs => rw [dotted_eq he, htake]
    simp [shownDots]
  rw [hfirst, hsecond, List.append_cancel_left_eq, List.append_cancel_right_eq,
    ← exists_shown_eq_iff]
  constructor
  · exact exists_shownDots _
  · rintro ⟨n, hbetween⟩
    rw [hbetween, ← shownDots_add, ← shownDots_add, Nat.add_comm]

variable {g : Grammar} {p : Production}

theorem toList_render (hp : p ∈ g.productions) (d : Nat) : ((p.itemAt d).render g).toList =
    (g.symbolName p.lhs ++ " ->").toList ++ shown (dotted d (p.rhs.map g.symbolName)) := by
  simp [render, rhs?, Grammar.production?_id hp, shown, List.flatMap_map]

/-- Two items of a production are shown alike if all names between their dots look like dots. -/
theorem render_eq_iff (hp : p ∈ g.productions) {d e : Nat} (hde : d ≤ e) (he : e ≤ p.rhs.length) :
    (p.itemAt d).render g = (p.itemAt e).render g ↔
      ∀ c ∈ (p.rhs.take e).drop d, IsDots (g.symbolName c) := by
  have hnames := shown_dotted_eq_iff (p.rhs.map g.symbolName) hde (by simpa using he)
  rw [← String.toList_inj, toList_render hp, toList_render hp, List.append_cancel_left_eq, hnames,
    ← List.map_take, ← List.map_drop, List.forall_mem_map]

/-- Items of a production with different dots are shown alike just if all names between the dots look like
dots. So the dot can always be told from the text just if no name in the right side looks like dots. -/
theorem render_tells_dot (hp : p ∈ g.productions) :
    (∀ d e, d < e → e ≤ p.rhs.length → ((p.itemAt d).render g = (p.itemAt e).render g ↔
      ∀ c ∈ (p.rhs.take e).drop d, IsDots (g.symbolName c))) ∧
    ((∀ d ≤ p.rhs.length, ∀ e ≤ p.rhs.length, d ≠ e →
      (p.itemAt d).render g ≠ (p.itemAt e).render g) ↔
        ∀ c ∈ p.rhs, ¬IsDots (g.symbolName c)) := by
  have hiff := fun d e hde he => render_eq_iff (d := d) (e := e) hp (Nat.le_of_lt hde) he
  refine ⟨hiff, ?_, ?_⟩
  · -- A name that looks like dots has the same text in front of the dot and behind it.
    intro hdiffer c hc hdots
    obtain ⟨k, hk, rfl⟩ := List.getElem_of_mem hc
    refine hdiffer k (Nat.le_of_lt hk) (k + 1) hk (Nat.ne_of_lt k.lt_succ_self) ?_
    rw [hiff k (k + 1) k.lt_succ_self hk, List.drop_take, Nat.add_sub_cancel_left,
      List.drop_eq_getElem_cons hk, List.take_succ_cons, List.take_zero, List.forall_mem_singleton]
    exact hdots
  · intro hnames
    have hdiffer : ∀ d e, d < e → e ≤ p.rhs.length →
        (p.itemAt d).render g ≠ (p.itemAt e).render g := by
      intro d e hde he heq
      obtain ⟨c, hc⟩ : ∃ c, c ∈ (p.rhs.take e).drop d := by
        apply List.exists_mem_of_length_pos
        rw [List.length_drop, List.length_take]
        omega
      exact hnames c (List.mem_of_mem_take (List.mem_of_mem_drop hc)) ((hiff d e hde he).mp heq c hc)
    intro d hd e he hne
    rcases Nat.lt_or_gt_of_ne hne with hlt | hlt
    · exact hdiffer d e hlt he
    · exact (hdiffer e d hlt hd).symm

end Item

/-- The rules `S → .` and `S → a . . . a`, of which the latter has the terminals `a`, `. .`, `.` and `a`. -/
def Outline.dotted : Outline where
  name := "dots"
  package := ""
  nonterminals := [⟨"S", []⟩]
  terminals := [⟨"a", []⟩, ⟨".", []⟩, ⟨". .", []⟩]
  rules := [⟨"S", ["."], []⟩, ⟨"S", ["a", ". .", ".", "a"], []⟩]
  start := some "S"

/-- Whether the dot stands before or behind what looks like dots cannot be seen, but it can be seen on which
side of an `a` it stands. -/
theorem Item.render_tells_dot_dotted : ∃ g, Outline.dotted.grammar = .ok g ∧
    ∃ p ∈ g.productions, p.rhs.length = 4 ∧ (p.itemAt 1).render g = (p.itemAt 3).render g ∧
      (p.itemAt 0).render g ≠ (p.itemAt 1).render g := by
  have hgrammar : (Outline.dotted.grammar.toOption.bind fun g =>
      (g.production? 2).map fun p => p.rhs.map g.symbolName) = some ["a", ". .", ".", "a"] := by
    decide +kernel
  obtain ⟨g, hg, hgrammar⟩ := Option.bind_eq_some_iff.mp hgrammar
  obtain ⟨p, hp, hnames⟩ := Option.map_eq_some_iff.mp hgrammar
  have hp := Grammar.mem_productions_of_production? hp
  have hlength : p.rhs.length = 4 := by simpa using congrArg List.length hnames
  have hdots : ∀ name ∈ [". .", "."], IsDots name := by
    simp only [List.forall_mem_cons]
    exact ⟨⟨1, by decide +kernel⟩, ⟨0, by decide +kernel⟩, by simp⟩
  have hletter : ¬IsDots "a" := by
    rw [isDots_iff]
    rintro ⟨n, h⟩
    exact absurd (List.cons.inj (List.cons.inj h).2).1 (by decide)
  obtain ⟨hiff, -⟩ := render_tells_dot hp
  refine ⟨g, eq_ok_of_toOption hg, p, hp, hlength, ?_, ?_⟩
  · rw [hiff 1 3 (by decide) (by omega), ← List.forall_mem_map (P := IsDots), List.map_drop,
      List.map_take, hnames]
    exact hdots
  · rw [Ne, hiff 0 1 (by decide) (by omega), ← List.forall_mem_map (P := IsDots), List.map_drop,
      List.map_take, hnames]
    exact fun h => hletter (h "a" List.mem_cons_self)

/-- In `S → .` the two places of the dot look the same. -/
theorem Item.render_alike_dotted : ∃ g, Outline.dotted.grammar = .ok g ∧
    ∃ p ∈ g.productions, 1 ≤ p.rhs.length ∧
      (p.itemAt 0).render g = "S -> . ." ∧ (p.itemAt 1).render g = "S -> . ." := by
  have hgrammar : (Outline.dotted.grammar.toOption.bind fun g => (g.production? 1).map fun p =>
      (p.rhs.length, (p.itemAt 0).render g, (p.itemAt 1).render g)) =
        some (1, "S -> . .", "S -> . .") := by
    decide +kernel
  obtain ⟨g, hg, hgrammar⟩ := Option.bind_eq_some_iff.mp hgrammar
  obtain ⟨p, hp, htexts⟩ := Option.map_eq_some_iff.mp hgrammar
  obtain ⟨hlength, hbefore, hbehind⟩ : _ ∧ _ ∧ _ := by simpa using htexts
  exact ⟨g, eq_ok_of_toOption hg, p, Grammar.mem_productions_of_production? hp, by omega, hbefore,
    hbehind⟩

end SimpleLR
