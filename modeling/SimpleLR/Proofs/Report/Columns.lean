import SimpleLR.Grammar.Outline
import SimpleLR.Proofs.Report.Records

/-!
# Symbols of the printed table

The records of a state are printed with the names of their symbols, and a dollar sign stands for the end
of the input. Names are unique and so are the records for a symbol. But a symbol may have any name other
than that of the augmented start symbol, so one of them can be named by a dollar sign as well. This is
the only way in which two records of a state are printed with the same symbol.
-/
namespace SimpleLR

namespace Record

variable {g : Grammar} {a : Automaton} {n : Nat} {st : State} {r r' : Record}

/-- The symbols that the records of a state are printed with. -/
def columnNames (g : Grammar) (a : Automaton) (n : Nat) (st : State) : List String :=
  (ofState g a n st).map fun r => columnName g r.column

/-- A state has a record for the end of the input and one for a symbol that is printed alike. -/
structure EndClashes (g : Grammar) (a : Automaton) (n : Nat) (st : State) : Prop where
  atEnd : ∃ r ∈ ofState g a n st, r.column = .endOfInput
  onSymbol : ∃ r ∈ ofState g a n st, ∃ c, r.column = .symbol c ∧ g.symbolName c = "$"

theorem lt_of_mem_ofState (h : r ∈ ofState g a n st) {c : Nat} (hc : r.column = .symbol c) :
    c < g.symbolCount := by
  obtain ⟨s, column, e⟩ := r
  obtain rfl : s = n := state_of_mem h
  obtain rfl : column = .symbol c := hc
  exact (mem_ofState_symbol.mp h).1

theorem eq_of_column_eq (h : r ∈ ofState g a n st) (h' : r' ∈ ofState g a n st)
    (hcolumn : r.column = r'.column) : r = r' := by
  refine List.inj_on_of_nodup_map ofState_nodup h h' ?_
  rw [state_of_mem h, state_of_mem h', hcolumn]

/-- Columns of a grammar have the same name only if one of them is the end of the input. -/
theorem eq_or_endOfInput {x y : Column} (hx : ∀ c, x = .symbol c → c < g.symbolCount)
    (hy : ∀ c, y = .symbol c → c < g.symbolCount) (h : columnName g x = columnName g y) :
    x = y ∨ columnName g x = "$" ∧ (x = .endOfInput ∨ y = .endOfInput) := by
  cases x with
  | endOfInput => exact .inr ⟨rfl, .inl rfl⟩
  | symbol c =>
    cases y with
    | endOfInput => exact .inr ⟨h, .inr rfl⟩
    | symbol d =>
      left
      have hc := Grammar.symbolName?_eq_some (hx c rfl)
      have hd := Grammar.symbolName?_eq_some (hy d rfl)
      rw [show g.symbolName d = g.symbolName c from h.symm] at hd
      rw [Grammar.symbolName?_inj hc hd]

/-- Records of a state that are printed with the same symbol are one, or one of them is for the end of the
input. -/
theorem eq_or_end_of_name_eq (h : r ∈ ofState g a n st) (h' : r' ∈ ofState g a n st)
    (hname : columnName g r.column = columnName g r'.column) :
    r = r' ∨ columnName g r.column = "$" ∧ (r.column = .endOfInput ∨ r'.column = .endOfInput) := by
  have heither := eq_or_endOfInput (fun _ => lt_of_mem_ofState h) (fun _ => lt_of_mem_ofState h') hname
  exact heither.imp_left (eq_of_column_eq h h')

theorem EndClashes.of_name_eq (h : r ∈ ofState g a n st) (h' : r' ∈ ofState g a n st) (hne : r ≠ r')
    (hend : r.column = .endOfInput) (hname : columnName g r'.column = "$") :
    EndClashes g a n st := by
  refine ⟨⟨r, h, hend⟩, r', h', ?_⟩
  cases hcolumn : r'.column with
  | endOfInput => exact absurd (eq_of_column_eq h h' (hend.trans hcolumn.symm)) hne
  | symbol c =>
    rw [hcolumn] at hname
    exact ⟨c, rfl, hname⟩

theorem EndClashes.not_nodup (h : EndClashes g a n st) : ¬(columnNames g a n st).Nodup := by
  obtain ⟨⟨r, hr, hend⟩, r', hr', c, hc, hname⟩ := h
  intro hnodup
  have heq : r = r' := by
    refine List.inj_on_of_nodup_map hnodup hr hr' ?_
    rw [hend, hc]
    exact hname.symm
  rw [← heq, hend] at hc
  contradiction

theorem EndClashes.exists_dollar (h : EndClashes g a n st) : ∃ s ∈ g.symbols, s.name = "$" := by
  obtain ⟨-, r, hr, c, hc, hname⟩ := h
  have hsome := Grammar.symbolName?_eq_some (lt_of_mem_ofState hr hc)
  rw [hname] at hsome
  obtain ⟨s, hs, hdollar⟩ := Option.map_eq_some_iff.mp hsome
  exact ⟨s, List.mem_of_getElem? hs, hdollar⟩

theorem nodup_of_not_endClashes (hclash : ¬EndClashes g a n st) : (columnNames g a n st).Nodup := by
  have hrecords : (ofState g a n st).Nodup := ofState_nodup.of_map _
  refine (List.nodup_map_iff_inj_on hrecords).mpr fun r h r' h' hname => ?_
  by_contra hne
  obtain heq | ⟨hdollar, hend | hend⟩ := eq_or_end_of_name_eq h h' hname
  · exact hne heq
  · exact hclash (.of_name_eq h h' hne hend (hname.symm.trans hdollar))
  · exact hclash (.of_name_eq h' h (Ne.symm hne) hend hdollar)

/-- The records of a state are printed with different symbols just if none is for a symbol named by a dollar
sign, or none for the end of the input. Where two records are printed with the same symbol, it is a dollar
sign and one of them is for the end of the input. So this cannot be if no symbol has that name. -/
theorem columnNames_nodup_iff (g : Grammar) (a : Automaton) (n : Nat) (st : State) :
    ((columnNames g a n st).Nodup ↔ ¬EndClashes g a n st) ∧
      (∀ r ∈ ofState g a n st, ∀ r' ∈ ofState g a n st,
        columnName g r.column = columnName g r'.column →
          r = r' ∨ columnName g r.column = "$" ∧ (r.column = .endOfInput ∨ r'.column = .endOfInput)) ∧
      ((∀ s ∈ g.symbols, s.name ≠ "$") → (columnNames g a n st).Nodup) := by
  refine ⟨⟨fun hnodup hclash => hclash.not_nodup hnodup, nodup_of_not_endClashes⟩,
    fun r h r' h' => eq_or_end_of_name_eq h h', fun hnames => nodup_of_not_endClashes fun hclash => ?_⟩
  obtain ⟨s, hs, hdollar⟩ := hclash.exists_dollar
  exact hnames s hs hdollar

end Record

/-- The rules `S → S $` and `S → $`, with a terminal that is named by a dollar sign. -/
def Outline.dollars : Outline where
  name := "dollars"
  package := ""
  nonterminals := [⟨"S", []⟩]
  terminals := [⟨"$", []⟩]
  rules := [⟨"S", ["S", "$"], []⟩, ⟨"S", ["$"], []⟩]
  start := some "S"

/-- At the beginning the terminal can be shifted, but the input cannot end. In the grammar `S → a S b | ε` no
symbol is named by a dollar sign. -/
theorem Record.columnNames_nodup_dollars :
    (∃ g t st, Outline.dollars.grammar = .ok g ∧ Tables.build g = .ok t ∧
      t.automaton.states[0]? = some st ∧ columnNames t.grammar t.automaton 0 st = ["S", "$"] ∧
      (columnNames t.grammar t.automaton 0 st).Nodup) ∧
    ∃ t st, Tables.build .balanced = .ok t ∧ t.automaton.states[0]? = some st ∧
      columnNames t.grammar t.automaton 0 st = ["S", "a", "b", "$"] ∧
      (columnNames t.grammar t.automaton 0 st).Nodup := by
  have hdollars : (Outline.dollars.grammar.toOption.bind fun g =>
      (Tables.build g).toOption.bind fun t => t.automaton.states[0]?.map fun st =>
        (ofState t.grammar t.automaton 0 st, columnNames t.grammar t.automaton 0 st)) =
        some ([⟨0, .symbol 0, .goto 1⟩, ⟨0, .symbol 2, .shift 2⟩], ["S", "$"]) := by
    decide +kernel
  have hbalanced : ((Tables.build .balanced).toOption.bind fun t =>
      t.automaton.states[0]?.map (columnNames t.grammar t.automaton 0)) =
        some ["S", "a", "b", "$"] := by
    decide +kernel
  constructor
  · obtain ⟨g, hg, hdollars⟩ := Option.bind_eq_some_iff.mp hdollars
    obtain ⟨t, ht, hdollars⟩ := Option.bind_eq_some_iff.mp hdollars
    obtain ⟨st, hst, hrecords⟩ := Option.map_eq_some_iff.mp hdollars
    obtain ⟨hrecords, hnames⟩ := Prod.mk.inj hrecords
    have hclash : ¬EndClashes t.grammar t.automaton 0 st := by
      rintro ⟨⟨r, hr, hend⟩, -⟩
      rw [hrecords] at hr
      obtain rfl | rfl : _ ∨ _ := by simpa using hr
      all_goals contradiction
    exact ⟨g, t, st, eq_ok_of_toOption hg, eq_ok_of_toOption ht, hst, hnames,
      (columnNames_nodup_iff t.grammar t.automaton 0 st).1.mpr hclash⟩
  · obtain ⟨t, ht, hbalanced⟩ := Option.bind_eq_some_iff.mp hbalanced
    obtain ⟨st, hst, hnames⟩ := Option.map_eq_some_iff.mp hbalanced
    have ht := eq_ok_of_toOption ht
    have hnone : ∀ s ∈ t.grammar.symbols, s.name ≠ "$" := by
      rw [(Tables.build_eq_ok ht).1]
      decide
    exact ⟨t, st, ht, hst, hnames, (columnNames_nodup_iff t.grammar t.automaton 0 st).2.2 hnone⟩

/-- Behind `S` another dollar sign can be shifted, or the input can end. -/
theorem Record.columnNames_dollars : ∃ g t st, Outline.dollars.grammar = .ok g ∧
    Tables.build g = .ok t ∧ t.automaton.states[1]? = some st ∧
      (ofState t.grammar t.automaton 1 st).map (text t.grammar) =
        ["A,1,$,Shift(3)", "A,1,$,Accept"] ∧
      columnNames t.grammar t.automaton 1 st = ["$", "$"] ∧
      ¬(columnNames t.grammar t.automaton 1 st).Nodup := by
  have hgrammar : (Outline.dollars.grammar.toOption.bind fun g =>
      (Tables.build g).toOption.bind fun t => t.automaton.states[1]?.map fun st =>
        ((ofState t.grammar t.automaton 1 st).map (text t.grammar),
          columnNames t.grammar t.automaton 1 st)) =
        some (["A,1,$,Shift(3)", "A,1,$,Accept"], ["$", "$"]) := by
    decide +kernel
  obtain ⟨g, hg, hgrammar⟩ := Option.bind_eq_some_iff.mp hgrammar
  obtain ⟨t, ht, hgrammar⟩ := Option.bind_eq_some_iff.mp hgrammar
  obtain ⟨st, hst, hrecords⟩ := Option.map_eq_some_iff.mp hgrammar
  obtain ⟨htexts, hnames⟩ := Prod.mk.inj hrecords
  refine ⟨g, t, st, eq_ok_of_toOption hg, eq_ok_of_toOption ht, hst, htexts, hnames, ?_⟩
  rw [hnames]
  decide

end SimpleLR
