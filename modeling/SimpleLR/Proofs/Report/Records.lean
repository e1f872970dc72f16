import SimpleLR.Proofs.Recognizer.Iterations
import SimpleLR.Report.Sections

/-!
# The printed table and the recognizer

The table and the recognizer come to what can be done in different ways. The recognizer asks for the
accepting state first, while the table looks for production 0 in the last cell; and a transition goes
before a reduction in both. Since the cells of a state without clashes hold what the state has candidates
for, and production 0 is complete in the accepting state only, with nothing but the end of the input
behind it, the records are what the recognizer does.
-/
namespace SimpleLR

/-- The column of the printed table for a lookahead. -/
def Column.ofLookahead : Lookahead → Column
  | .terminal code => .symbol code
  | .endOfInput => .endOfInput

/-- What the printed table says for an action. -/
def Entry.ofAction : Action → Entry
  | .shift target => .shift target
  | .reduce item => .reduce item.production
  | .accept => .accept

namespace Entry

variable {x : Action}

@[simp] theorem ofAction_eq_shift {t : Nat} : ofAction x = .shift t ↔ x = .shift t := by
  cases x <;> simp [ofAction]

@[simp] theorem ofAction_eq_reduce {id : Nat} :
    ofAction x = .reduce id ↔ ∃ i, x = .reduce i ∧ i.production = id := by
  cases x <;> simp [ofAction]

@[simp] theorem ofAction_eq_accept : ofAction x = .accept ↔ x = .accept := by
  cases x <;> simp [ofAction]

end Entry

namespace Record

/-- The records of all states. -/
def all (g : Grammar) (a : Automaton) : List Record :=
  a.states.toList.zipIdx.flatMap fun (s, n) => ofState g a n s

variable {g : Grammar} {a : Automaton} {n : Nat} {st : State}

theorem text_ne_empty (r : Record) : r.text g ≠ "" := by
  simp [text]

theorem table_eq : ∃ body : List String,
    Report.table g a = Report.lines ([s!"TS,{a.states.size}", ""] ++ body) ∧
      body.filter (· ≠ "") = (all g a).map (text g) := by
  refine ⟨_, rfl, ?_⟩
  rw [all, List.filter_flatMap, List.map_flatMap]
  congr 1
  funext ⟨s, n⟩
  simp [List.filter_map, Function.comp_def, text_ne_empty]

theorem mem_ofState_symbol {c : Nat} {e : Entry} :
    ⟨n, .symbol c, e⟩ ∈ ofState g a n st ↔ c < g.symbolCount ∧ onSymbol? g a n st c = some e := by
  simp [ofState]

theorem mem_ofState_end {e : Entry} :
    ⟨n, .endOfInput, e⟩ ∈ ofState g a n st ↔ onEnd? g a n = some e := by
  simp [ofState]

theorem state_of_mem {r : Record} (h : r ∈ ofState g a n st) : r.state = n := by
  simp only [ofState, List.mem_append, List.mem_filterMap, Option.mem_toList, Option.map_eq_some_iff] at h
  obtain ⟨_, _, _, _, rfl⟩ | ⟨_, _, rfl⟩ := h <;> rfl

theorem mem_all {r : Record} :
    r ∈ all g a ↔ ∃ st, a.states[r.state]? = some st ∧ r ∈ ofState g a r.state st := by
  simp only [all, List.mem_flatMap, Prod.exists, List.mem_zipIdx_iff_getElem?, Array.getElem?_toList]
  constructor
  · rintro ⟨st, n, hst, hr⟩
    obtain rfl := state_of_mem hr
    exact ⟨st, hst, hr⟩
  · rintro ⟨st, hst, hr⟩
    exact ⟨st, r.state, hst, hr⟩

/-- A state has one record at most for each column. -/
theorem ofState_nodup : ((ofState g a n st).map fun r => (r.state, r.column)).Nodup := by
  rw [List.Nodup, List.pairwise_map, ofState, List.pairwise_append]
  refine ⟨?_, ?_, ?_⟩
  · rw [List.pairwise_filterMap]
    refine List.nodup_range.imp fun {c d} hne r hr r' hr' heq => hne ?_
    obtain ⟨_, -, rfl⟩ := Option.map_eq_some_iff.mp hr
    obtain ⟨_, -, rfl⟩ := Option.map_eq_some_iff.mp hr'
    exact Column.symbol.inj (Prod.mk.inj heq).2
  · cases onEnd? g a n <;> simp
  · intro r hr r' hr' heq
    obtain ⟨c, -, hr⟩ := List.mem_filterMap.mp hr
    obtain ⟨_, -, rfl⟩ := Option.map_eq_some_iff.mp hr
    obtain ⟨_, -, rfl⟩ := Option.map_eq_some_iff.mp (Option.mem_toList.mp hr')
    exact absurd (Prod.mk.inj heq).2 (by simp)

theorem all_nodup : ((all g a).map fun r => (r.state, r.column)).Nodup := by
  rw [List.Nodup, List.pairwise_map, all, List.pairwise_flatMap]
  constructor
  · rintro ⟨st, n⟩ -
    exact List.pairwise_map.mp ofState_nodup
  · have hnumbers : (a.states.toList.zipIdx.map Prod.snd).Pairwise (· ≠ ·) := by
      rw [List.zipIdx_map_snd]
      exact List.nodup_range'
    refine (List.pairwise_map.mp hnumbers).imp ?_
    rintro ⟨st, n⟩ ⟨st', n'⟩ hne r hr r' hr' heq
    rw [state_of_mem hr, state_of_mem hr'] at heq
    exact hne (Prod.mk.inj heq).1

section

variable {s : Nat} (ha : Automaton.build g (Facts.ofGrammar g) = .ok a) (hs : g.states[s]? = some st)

include ha hs

theorem mem_all_iff {column : Column} {e : Entry} :
    ⟨s, column, e⟩ ∈ all g a ↔ ⟨s, column, e⟩ ∈ ofState g a s st := by
  rw [mem_all, Automaton.states_of_build ha]
  constructor
  · rintro ⟨st', hst', h⟩
    rw [hs] at hst'
    rwa [Option.some.inj hst']
  · exact fun h => ⟨st, hs, h⟩

/-- The last cell holds the item of production 0 in the accepting state only. -/
theorem accepting_iff_cell : a.accepting = some s ↔
    ∃ i, a.reduces.get? s .endOfInput = some i ∧ i.production = g.startProduction.id := by
  have hr := (Automaton.build_eq_ok ha).1
  rw [Automaton.accepting_eq_some ha hs]
  constructor
  · intro hi
    have hc : g.acceptItem.isComplete g = true :=
      (Production.itemAt_isComplete List.mem_cons_self _).mpr rfl
    have hlast := (Facts.closed_ofGrammar g).last
    exact ⟨g.acceptItem, (ReduceTable.get?_of_candidate hr hs ⟨hi, hc, hlast⟩).1, rfl⟩
  · rintro ⟨i, hi, hprod⟩
    obtain ⟨st', hst', hmem, hc⟩ := ReduceTable.mem_of_get? hr hi
    rw [hs] at hst'
    obtain rfl := Option.some.inj hst'
    obtain ⟨p, hp, d, -, rfl⟩ := Grammar.states_belongsTo hs hmem
    obtain rfl := (Production.itemAt_isComplete hp d).mp hc
    obtain rfl := Production.eq_of_id_eq hp List.mem_cons_self hprod
    exact hmem

/-- The record for a lookahead is the action on it. -/
theorem mem_all_lookahead {la : Lookahead} (hla : la ∈ Follow.lookaheads g) {e : Entry} :
    ⟨s, .ofLookahead la, e⟩ ∈ all g a ↔ (a.action? s la).map Entry.ofAction = some e := by
  rw [mem_all_iff ha hs]
  cases la with
  | terminal c =>
    have hc := Follow.terminal_mem_lookaheads.mp hla
    have hlt := (Grammar.mem_terminals.mp hc).2
    rw [Column.ofLookahead, mem_ofState_symbol, onSymbol?, Automaton.action?, if_neg (by simp),
      Automaton.shift?_eq ha hs, State.shift?]
    cases st.transition? c with
    | none => simp [hlt, Function.comp_def, Entry.ofAction]
    | some t => simp [hlt, Grammar.isTerminal_of_mem_terminals hc, Entry.ofAction]
  | endOfInput =>
    have hacc := accepting_iff_cell ha hs
    rw [Column.ofLookahead, mem_ofState_end, onEnd?, Automaton.action?, Automaton.shift?_eq ha hs,
      State.shift?]
    cases hcell : a.reduces.get? s .endOfInput with
    | none => simp [hacc, hcell]
    | some i =>
      by_cases h0 : i.production = g.startProduction.id
      · simp [hacc, hcell, h0, Entry.ofAction]
      · simp [hacc, hcell, h0, Entry.ofAction]

/-- The record for a nonterminal is its transition. -/
theorem mem_all_nonterminal {A : Nat} (hA : g.isNonterminal A = true) {e : Entry} :
    ⟨s, .symbol A, e⟩ ∈ all g a ↔ ∃ t, e = .goto t ∧ a.transition? s A = some t := by
  have hA : A < g.nonterminalCount := of_decide_eq_true hA
  have hlt : A < g.symbolCount := Nat.lt_of_lt_of_le hA Grammar.augmentedStart_lt_symbolCount
  have hterminal : g.isTerminal A = false := by simpa [Grammar.isTerminal] using hA
  -- FOLLOW sets have no room for a nonterminal.
  have hcell : a.reduces.get? s (.terminal A) = none := by
    by_contra hfilled
    obtain ⟨i, hi⟩ := Option.ne_none_iff_exists'.mp hfilled
    have hbelow : (Lookahead.terminal A).Below g.symbolCount :=
      fun c hc => Lookahead.terminal.inj hc ▸ hlt
    have hcandidate := ReduceTable.candidate_of_get? (Automaton.build_eq_ok ha).1 hs
      (Facts.covers_ofGrammar g) hbelow hi
    have hla := (Facts.covers_ofGrammar g).2 _ _ hcandidate.2.2
    exact absurd (Grammar.mem_terminals.mp (Follow.terminal_mem_lookaheads.mp hla)).1
      (Nat.not_le.mpr hA)
  rw [mem_all_iff ha hs, mem_ofState_symbol, onSymbol?, Automaton.transition?_eq ha hs, hcell]
  cases st.transition? A with
  | none => simp
  | some t => simp [hlt, hterminal, eq_comm]

end

/-- The records are what the recognizer does. -/
structure Agree (g : Grammar) (a : Automaton) : Prop where
  /-- Behind its head, the printed table has the texts of the records and empty lines. -/
  written : ∃ body : List String,
    Report.table g a = Report.lines ([s!"TS,{a.states.size}", ""] ++ body) ∧
      body.filter (· ≠ "") = (all g a).map (text g)
  /-- No state has two records for one column. -/
  nodup : ((all g a).map fun r => (r.state, r.column)).Nodup
  shift : ∀ s < a.states.size, ∀ la ∈ Follow.lookaheads g, ∀ t,
    a.ShiftsTo g s la t ↔ ⟨s, .ofLookahead la, .shift t⟩ ∈ all g a
  reduce : ∀ s < a.states.size, ∀ la ∈ Follow.lookaheads g, ∀ id,
    a.ReducesBy g s la id ↔ ⟨s, .ofLookahead la, .reduce id⟩ ∈ all g a
  accept : ∀ s < a.states.size, ∀ la ∈ Follow.lookaheads g,
    a.AcceptsOn g s la ↔ ⟨s, .ofLookahead la, .accept⟩ ∈ all g a
  refuse : ∀ s < a.states.size, ∀ la ∈ Follow.lookaheads g,
    a.RefusesOn g s la ↔ ∀ e, ⟨s, .ofLookahead la, e⟩ ∉ all g a
  /-- A nonterminal has a record where there is a transition, and that is all it has. -/
  goto : ∀ s < a.states.size, ∀ A, g.isNonterminal A = true → ∀ e,
    ⟨s, .symbol A, e⟩ ∈ all g a ↔ ∃ t, e = .goto t ∧ a.transition? s A = some t

/-- The printed table of a grammar with tables says what the recognizer does. -/
theorem agree_of_build {t : Tables} (ht : Tables.build g = .ok t) : Agree t.grammar t.automaton := by
  obtain ⟨hg, ha⟩ := Tables.build_eq_ok ht
  rw [hg]
  have hstate : ∀ s < t.automaton.states.size, ∃ st, g.states[s]? = some st := fun s hs =>
    ⟨_, Array.getElem?_eq_getElem (Automaton.states_of_build ha ▸ hs)⟩
  constructor
  · exact table_eq
  · exact all_nodup
  · intro s hs la hla target
    obtain ⟨st, hst⟩ := hstate s hs
    rw [Automaton.shiftsTo_iff, mem_all_lookahead ha hst hla]
    simp
  · intro s hs la hla id
    obtain ⟨st, hst⟩ := hstate s hs
    rw [Automaton.reducesBy_iff ha hst hla, mem_all_lookahead ha hst hla, Option.map_eq_some_iff]
    simp only [Entry.ofAction_eq_reduce]
    constructor
    · rintro ⟨i, hi, hid⟩
      exact ⟨_, hi, i, rfl, hid⟩
    · rintro ⟨_, hi, i, rfl, hid⟩
      exact ⟨i, hi, hid⟩
  · intro s hs la hla
    obtain ⟨st, hst⟩ := hstate s hs
    rw [Automaton.acceptsOn_iff, mem_all_lookahead ha hst hla]
    simp
  · intro s hs la hla
    obtain ⟨st, hst⟩ := hstate s hs
    rw [Automaton.refusesOn_iff, ← Option.map_eq_none_iff, Option.eq_none_iff_forall_ne_some]
    exact forall_congr' fun e => not_congr (mem_all_lookahead ha hst hla).symm
  · intro s hs A hA e
    obtain ⟨st, hst⟩ := hstate s hs
    exact mem_all_nonterminal ha hst hA

/-- The states of the grammar `S → a S b | ε` reduce by the empty rule or shift an `a`, and the accepting
one has a record for the end of the input only. -/
theorem agree_of_build_balanced : ∃ t, Tables.build .balanced = .ok t ∧
    Agree t.grammar t.automaton ∧
    (all t.grammar t.automaton).take 5 =
      [⟨0, .symbol 0, .goto 1⟩, ⟨0, .symbol 3, .shift 2⟩, ⟨0, .symbol 4, .reduce 2⟩,
        ⟨0, .endOfInput, .reduce 2⟩, ⟨1, .endOfInput, .accept⟩] := by
  have hbuild : (Tables.build .balanced).toOption.map
      (fun t => (all t.grammar t.automaton).take 5) =
        some [⟨0, .symbol 0, .goto 1⟩, ⟨0, .symbol 3, .shift 2⟩, ⟨0, .symbol 4, .reduce 2⟩,
          ⟨0, .endOfInput, .reduce 2⟩, ⟨1, .endOfInput, .accept⟩] := by
    decide +kernel
  obtain ⟨t, ht, hrecords⟩ := Option.map_eq_some_iff.mp hbuild
  have ht := eq_ok_of_toOption ht
  exact ⟨t, ht, agree_of_build ht, hrecords⟩

end Record

end SimpleLR
