import SimpleLR.Proofs.Grammar.Built

/-!
# Histories that come to the same

A builder is known by the symbols of each kind that were declared, the productions that were added and the
start symbol that was chosen last. So it makes no difference what was refused in between, and none how
operations on different parts of a builder were mixed. The answers do not tell either: a handle counts the
symbols of its kind alone and an id the productions alone.
-/
namespace SimpleLR

section List

variable {α β : Type} {f : α → Option β} {l : List α} {r : List β}

theorem mapM_eq_some_of_forall₂ (h : List.Forall₂ (fun a b => f a = some b) l r) :
    l.mapM f = some r := by
  induction h with
  | nil => rfl
  | cons ha _ ih => simp [List.mapM_cons, ha, ih]

theorem filterMap_eq_of_forall₂ (h : List.Forall₂ (fun a b => f a = some b) l r) :
    l.filterMap f = r := by
  induction h with
  | nil => rfl
  | cons ha _ ih => rw [List.filterMap_cons_some ha, ih]

theorem eq_of_map_fst {l l' : List (α × β)} (hfst : l.map Prod.fst = l'.map Prod.fst)
    (h : ∀ a b b', (a, b) ∈ l → (a, b') ∈ l' → b = b') : l = l' := by
  induction l generalizing l' with
  | nil => exact (List.map_eq_nil_iff.mp hfst.symm).symm
  | cons x l ih =>
    obtain ⟨x', l', rfl, hx, hl⟩ := List.map_eq_cons_iff.mp hfst.symm
    have hx : x = x' := Prod.ext hx.symm (h x.1 x.2 x'.2 List.mem_cons_self (hx ▸ List.mem_cons_self))
    rw [hx, ih hl.symm fun a b b' hmem hmem' =>
      h a b b' (List.mem_cons_of_mem _ hmem) (List.mem_cons_of_mem _ hmem')]

end List

/-- The part of a builder that operations are about, or the names that they look up. -/
inductive Operation.Role
  | declare (kind : SymbolKind)
  | lookup
  | add
  | choose
deriving DecidableEq

namespace Operation

def role : Operation → Role
  | .nonterminal _ _ => .declare .nonterminal
  | .terminal _ _ => .declare .terminal
  | .symbol _ => .lookup
  | .production _ _ _ => .add
  | .rule _ _ _ => .add
  | .start _ => .choose

/-- The name whose handle is asked for. -/
def name? : Operation → Option String
  | .nonterminal name _ => some name
  | .terminal name _ => some name
  | .symbol name => some name
  | _ => none

end Operation

namespace History

/-- The handles that were issued, with the symbols that they were issued for. -/
def handles (history : History) : List (Handle × Symbol) :=
  history.filterMap fun
    | (op, .ok (.symbol h)) => op.declares?.map fun d => (h, d.2)
    | _ => none

/-- The handle that was issued for a name. -/
def handle? (history : History) (name : String) : Option Handle :=
  (history.handles.find? (·.2.name = name)).map Prod.fst

/-- The production that an operation asks for, with handles for its names. -/
def draft? (history : History) : Operation → Option Draft
  | .production lhs rhs actions => some ⟨lhs.index, rhs, actions⟩
  | .rule lhs rhs actions =>
    (history.handle? lhs).bind fun left =>
      (rhs.mapM history.handle?).map fun right => ⟨left.index, right, actions⟩
  | _ => none

/-- The productions that were added, with handles for their names. -/
def drafts (history : History) : List Draft := history.added.filterMap fun a => history.draft? a.1

/-- The operations that were not refused, with their answers. -/
def succeeded (history : History) : History := history.filter (·.2.isOk)

/-- The operations of a role, with their answers. -/
def ofRole (role : Operation.Role) (history : History) : History := history.filter (·.1.role = role)

/-- The same was declared of each kind, the same was added, and the same was chosen last. -/
structure Agrees (history history' : History) : Prop where
  declared : ∀ kind, history.declared kind = history'.declared kind
  drafts : history.drafts = history'.drafts
  start : history.chosen.getLast? = history'.chosen.getLast?

end History

namespace History

theorem mem_handles {history : History} {h : Handle} {s : Symbol} :
    (h, s) ∈ history.handles ↔ history.Issued h s := by
  simp only [handles, List.mem_filterMap, Prod.exists, Issued]
  constructor
  · rintro ⟨op, answer, hmem, heq⟩
    split at heq
    · rename_i hanswer
      obtain ⟨rfl, rfl⟩ := Prod.mk.inj hanswer
      obtain ⟨⟨kind, s'⟩, hop, heq⟩ := Option.map_eq_some_iff.mp heq
      obtain ⟨rfl, rfl⟩ := Prod.mk.inj heq
      exact ⟨op, kind, hmem, hop⟩
    · contradiction
  · rintro ⟨op, kind, hmem, hop⟩
    exact ⟨op, _, hmem, by simp [hop]⟩

end History

namespace Declarations

variable {M : Type → Type} [IndexMap M] {d d' : Declarations M} {history history' : History}

/-- The same has been collected, whatever the maps of the symbols are like otherwise. -/
structure Same (d d' : Declarations M) : Prop where
  name : d.name = d'.name
  package : d.package = d'.package
  declared : d.declared = d'.declared
  drafts : d.drafts = d'.drafts
  start : d.start = d'.start

theorem Same.symbols (h : d.Same d') : d.symbols = d'.symbols := by
  rw [Declarations.symbols, Declarations.symbols, h.declared]

theorem Same.augmentedStart [LawfulIndexMap M] (h : d.Same d') : d.augmentedStart = d'.augmentedStart := by
  rw [augmentedStart_eq, augmentedStart_eq, h.declared]

theorem Same.rules [LawfulIndexMap M] (h : d.Same d') : d.rules = d'.rules := by
  simp only [Declarations.rules, codeDraft, h.drafts, h.augmentedStart]

/-- Which handle has a name is settled by the declarations alone. -/
theorem Names.congr (hdeclared : d.declared = d'.declared) : d.Names = d'.Names := by
  ext name h
  simp only [Names, symbol?, hdeclared]

/-- A name is that of one handle only. -/
theorem Names.unique [LawfulIndexMap M] (hv : d.Valid) {name : String} {h h' : Handle} (hn : d.Names name h)
    (hn' : d.Names name h') : h = h' := by
  obtain ⟨s, hs, hname⟩ := hn
  obtain ⟨s', hs', hname'⟩ := hn'
  have hget : (d.symbols.map Symbol.name)[h.code d.augmentedStart]? = some name := by
    simp [symbols_code h hs, hname]
  have hget' : (d.symbols.map Symbol.name)[h'.code d.augmentedStart]? = some name := by
    simp [symbols_code h' hs', hname']
  have hcode : h.code d.augmentedStart = h'.code d.augmentedStart :=
    (List.getElem?_inj (List.getElem?_eq_some_iff.mp hget).1 hv.symbols_names_nodup).mp
      (hget.trans hget'.symm)
  have hlt := (List.getElem?_eq_some_iff.mp hs).1
  have hlt' := (List.getElem?_eq_some_iff.mp hs').1
  obtain ⟨kind, index⟩ := h
  obtain ⟨kind', index'⟩ := h'
  cases kind <;> cases kind' <;>
    simp only [Handle.code, augmentedStart_eq, Handle.mk.injEq] at hcode hlt hlt' ⊢ <;> simp <;> omega

namespace Records

section

variable [LawfulIndexMap M] (hv : d.Valid) (hr : d.Records history)

include hv hr

/-- The handle that was issued for a name is the one of its symbol. -/
theorem handle?_eq_some {name : String} {h : Handle} : history.handle? name = some h ↔ d.Names name h := by
  have hissued : ∀ {h'}, history.handle? name = some h' → d.Names name h' := by
    intro h' hh'
    obtain ⟨⟨_, s⟩, hfind, rfl⟩ := Option.map_eq_some_iff.mp hh'
    have hmem := History.mem_handles.mp (List.mem_of_find?_eq_some hfind)
    exact ⟨s, (hr.issued _ s).mp hmem, by simpa using List.find?_some hfind⟩
  refine ⟨hissued, fun hn => ?_⟩
  obtain ⟨s, hs, hname⟩ := hn
  have hmem := History.mem_handles.mpr ((hr.issued h s).mpr hs)
  obtain ⟨h', hh'⟩ : ∃ h', history.handle? name = some h' := by
    have hfound : (history.handles.find? (·.2.name = name)).isSome = true :=
      List.find?_isSome.mpr ⟨(h, s), hmem, by simpa using hname⟩
    obtain ⟨e, he⟩ := Option.isSome_iff_exists.mp hfound
    exact ⟨e.1, by rw [History.handle?, he, Option.map_some]⟩
  rw [hh', (hissued hh').unique hv ⟨s, hs, hname⟩]

theorem draft?_eq_some {op : Operation} {p : Draft} (hp : d.Drafts op p) : history.draft? op = some p := by
  cases hp with
  | production => rfl
  | rule hl hnames =>
    have hright := mapM_eq_some_of_forall₂ (hnames.imp fun _ _ => (hr.handle?_eq_some hv).mpr)
    rw [History.draft?, (hr.handle?_eq_some hv).mpr hl, hright]
    rfl

/-- The productions that were added are the drafts. -/
theorem drafts_eq : history.drafts = d.drafts :=
  filterMap_eq_of_forall₂ (hr.drafts.imp fun _ _ => hr.draft?_eq_some hv)

end

section

variable [LawfulIndexMap M] (hv : d.Valid) (hv' : d'.Valid) (hr : d.Records history)
  (hr' : d'.Records history')

include hv hv' hr hr'

/-- Declarations are known by the name and the package and by what their history declares, adds and chooses. -/
theorem same (hname : d.name = d'.name) (hpackage : d.package = d'.package) (h : history.Agrees history') :
    d.Same d' where
  name := hname
  package := hpackage
  declared := by
    ext kind : 1
    rw [hr.declared, hr'.declared, h.declared]
  drafts := by rw [← hr.drafts_eq hv, ← hr'.drafts_eq hv', h.drafts]
  start := by
    have := h.start
    rw [hr.start, hr'.start] at this
    exact Option.map_injective (fun _ _ heq => (Handle.mk.inj heq).2) this

/-- Drafts are known by what was declared and by the operations that added them: where a declaration came
between them does not matter. -/
theorem drafts_congr (hdeclared : ∀ kind, history.declared kind = history'.declared kind)
    (hadded : history.added.map Prod.fst = history'.added.map Prod.fst) :
    history.drafts = history'.drafts := by
  have hdeclared : d.declared = d'.declared := by
    ext kind : 1
    rw [hr.declared, hr'.declared, hdeclared]
  have hhandle : history.handle? = history'.handle? := by
    ext name h
    rw [hr.handle?_eq_some hv, hr'.handle?_eq_some hv', Names.congr hdeclared]
  have hdraft : history.draft? = history'.draft? := by
    ext1 op
    cases op <;> simp only [History.draft?, hhandle]
  calc history.drafts = (history.added.map Prod.fst).filterMap history.draft? := by
        rw [List.filterMap_map]; rfl
    _ = (history'.added.map Prod.fst).filterMap history'.draft? := by rw [hadded, hdraft]
    _ = history'.drafts := by rw [List.filterMap_map]; rfl

end

end Records

/-- The answer to an operation that was not refused, read off the declarations after it. An id is not known
from these, because the same production can be added twice. -/
inductive Answers (d : Declarations M) : Operation → Reply → Prop
  | symbol {op : Operation} {name : String} {h : Handle} (hop : op.name? = some name)
      (hn : d.Names name h) : Answers d op (.symbol h)
  | production {op : Operation} {id : Nat} (hop : op.role = .add) : Answers d op (.production id)
  | start {h : Handle} : Answers d (.start h) .done

namespace Answers

variable {op : Operation} {reply reply' : Reply}

theorem mono (ha : d.Answers op reply) (hsymbol : ∀ h s, d.symbol? h = some s → d'.symbol? h = some s) :
    d'.Answers op reply := by
  cases ha with
  | symbol hop hn => exact .symbol hop (hn.mono hsymbol)
  | production hop => exact .production hop
  | start => exact .start

theorem unique [LawfulIndexMap M] (hv : d.Valid) (ha : d.Answers op reply) (ha' : d.Answers op reply')
    (hop : op.role ≠ .add) : reply = reply' := by
  cases ha with
  | symbol hname hn =>
    cases ha' with
    | symbol hname' hn' =>
      obtain rfl := Option.some.inj (hname.symm.trans hname')
      rw [hn.unique hv hn']
    | production hadd => contradiction
    | start => contradiction
  | production hadd => contradiction
  | start =>
    cases ha' with
    | symbol hname => contradiction
    | production hadd => contradiction
    | start => rfl

/-- Operations that add productions are the ones that are answered with an id. -/
theorem role_eq_add_iff (ha : d.Answers op reply) : op.role = .add ↔ ∃ id, reply = .production id := by
  cases ha with
  | symbol hop =>
    refine ⟨fun hadd => ?_, fun ⟨_, h⟩ => by contradiction⟩
    cases op <;> contradiction
  | production hop => exact ⟨fun _ => ⟨_, rfl⟩, fun _ => hop⟩
  | start => exact ⟨fun hadd => by contradiction, fun ⟨_, h⟩ => by contradiction⟩

end Answers

/-- What an operation answers can be read off what it leads to. -/
theorem Does.answers {op : Operation} {reply : Reply} (hd : d.Does op reply d') : d'.Answers op reply := by
  cases hd with
  | @declares _ kind s _ hop hg =>
    have hname : op.name? = some s.name := by
      cases op <;> simp only [Operation.declares?, Option.some.injEq, Prod.mk.injEq] at hop <;>
        first | contradiction | (obtain ⟨-, rfl⟩ := hop; rfl)
    exact .symbol hname ⟨s, hg.symbol?.mpr (.inr ⟨rfl, rfl⟩), rfl⟩
  | finds hn => exact .symbol rfl hn
  | adds hop => exact .production (by cases hop <;> rfl)
  | chooses => exact .start

/-- Operations do not change the name and the package. -/
theorem Does.same_name {op : Operation} {reply : Reply} (hd : d.Does op reply d') :
    d'.name = d.name ∧ d'.package = d.package := by
  cases hd with
  | declares _ hg => exact ⟨hg.same.1, hg.same.2.1⟩
  | finds | adds | chooses => exact ⟨rfl, rfl⟩

end Declarations

namespace Builder

open Declarations

variable {M : Type → Type} [IndexMap M] [LawfulIndexMap M] {b b' : Builder M}

theorem build_eq_error_iff {e : GrammarError} : b.build = .error e ↔ b.start = none ∧ e = .missingStart := by
  unfold build
  split
  · simp [*, eq_comm]
  · simp [*]

/-- Builders that have collected the same come to the same grammar, or to the same complaint. -/
theorem build_congr (h : b.Same b'.toDeclarations) : b.build = b'.build := by
  cases hb : b.build with
  | error e =>
    obtain ⟨hstart, rfl⟩ := build_eq_error_iff.mp hb
    exact (build_eq_error_iff.mpr ⟨h.start ▸ hstart, rfl⟩).symm
  | ok g =>
    cases hb' : b'.build with
    | error e =>
      obtain ⟨hstart, rfl⟩ := build_eq_error_iff.mp hb'
      rw [build_eq_error_iff.mpr ⟨h.start ▸ hstart, rfl⟩] at hb
      contradiction
    | ok g' =>
      obtain ⟨hname, hpackage, hsymbols, haugmented, hstart, hrules⟩ := build_eq_ok hb
      obtain ⟨hname', hpackage', hsymbols', haugmented', hstart', hrules'⟩ := build_eq_ok hb'
      congr 1
      apply Grammar.ext_rules
      · rw [hname, hname', h.name]
      · rw [hpackage, hpackage', h.package]
      · rw [hsymbols, hsymbols', h.symbols]
      · rw [haugmented, haugmented', h.augmentedStart]
      · exact Option.some.inj (hstart ▸ hstart' ▸ h.start)
      · rw [hrules, hrules', h.rules]

theorem history_cons (b : Builder M) (op : Operation) (ops : List Operation) :
    b.history (op :: ops) = (op, (b.perform op).1) :: (b.perform op).2.history ops := rfl

theorem performAll_cons (b : Builder M) (op : Operation) (ops : List Operation) :
    (b.performAll (op :: ops)).2 = ((b.perform op).2.performAll ops).2 := rfl

theorem history_map_fst (b : Builder M) (ops : List Operation) : (b.history ops).map Prod.fst = ops := by
  induction ops generalizing b with
  | nil => rfl
  | cons op ops ih => rw [history_cons, List.map_cons, ih]

/-- What every operation that is not refused keeps is kept by a whole history. -/
theorem performAll_induction (P : Declarations M → Prop)
    (step : ∀ d op reply d', P d → d.Does op reply d' → P d') (ops : List Operation)
    (hb : P b.toDeclarations) : P (b.performAll ops).2.toDeclarations := by
  induction ops generalizing b with
  | nil => exact hb
  | cons op ops ih =>
    rw [performAll_cons]
    cases h : (b.perform op).1 with
    | ok reply => exact ih (step _ op reply _ hb (does_of_apply h))
    | error e =>
      rw [perform_refused h]
      exact ih hb

theorem same_name_performAll (b : Builder M) (ops : List Operation) :
    (b.performAll ops).2.name = b.name ∧ (b.performAll ops).2.package = b.package := by
  apply performAll_induction (fun d => d.name = b.name ∧ d.package = b.package) _ ops ⟨rfl, rfl⟩
  intro d op reply d' hsame hd
  obtain ⟨hname, hpackage⟩ := hd.same_name
  exact ⟨hname.trans hsame.1, hpackage.trans hsame.2⟩

/-- Without the operations that are refused, the others are answered in the same way and lead to the same
builder. -/
theorem performAll_succeeded (b : Builder M) (ops : List Operation) :
    b.history ((b.history ops).succeeded.map Prod.fst) = (b.history ops).succeeded ∧
      (b.performAll ((b.history ops).succeeded.map Prod.fst)).2 = (b.performAll ops).2 := by
  induction ops generalizing b with
  | nil => exact ⟨rfl, rfl⟩
  | cons op ops ih =>
    rw [history_cons, performAll_cons]
    cases h : (b.perform op).1 with
    | ok reply =>
      have hkept : History.succeeded ((op, .ok reply) :: (b.perform op).2.history ops) =
          (op, .ok reply) :: ((b.perform op).2.history ops).succeeded := rfl
      rw [hkept, List.map_cons, history_cons, performAll_cons, h]
      exact ⟨congrArg _ (ih _).1, (ih _).2⟩
    | error e =>
      have hkept : History.succeeded ((op, .error e) :: b.history ops) =
          (b.history ops).succeeded := rfl
      rw [perform_refused h, hkept]
      exact ih b

/-- The answers in a history can be read off the builder at its end. -/
theorem answers_of_mem_history {ops : List Operation} {op : Operation} {reply : Reply}
    (h : (op, .ok reply) ∈ b.history ops) : (b.performAll ops).2.Answers op reply := by
  induction ops generalizing b with
  | nil => contradiction
  | cons first ops ih =>
    rw [history_cons] at h
    rw [performAll_cons]
    rcases List.mem_cons.mp h with heq | hmem
    · obtain ⟨rfl, hreply⟩ := Prod.mk.inj heq
      have hfirst : (b.perform op).2.Answers op reply := (does_of_apply hreply.symm).answers
      exact performAll_induction (·.Answers op reply)
        (fun _ _ _ _ ha hd => ha.mono fun _ _ => hd.symbol?_mono) ops hfirst
    · exact ih hmem

/-- Operations of a role keep their order in a history. -/
theorem ofRole_history_map_fst (b : Builder M) (ops : List Operation) (role : Operation.Role) :
    ((b.history ops).ofRole role).map Prod.fst = ops.filter (·.role = role) := by
  conv_rhs => rw [← history_map_fst b ops, List.filter_map]
  rfl

end Builder

namespace History

/-- Nothing was refused. -/
def Succeeds (history : History) : Prop := ∀ a ∈ history, a.2.isOk = true

instance (history : History) : Decidable history.Succeeds :=
  inferInstanceAs (Decidable (∀ a ∈ history, a.2.isOk = true))

variable {history history' : History}

theorem Succeeds.exists_reply (h : history.Succeeds) {op : Operation}
    {answer : Except GrammarError Reply} (hmem : (op, answer) ∈ history) :
    ∃ reply, answer = .ok reply := by
  cases answer with
  | error e => exact absurd (h _ hmem) Bool.false_ne_true
  | ok reply => exact ⟨reply, rfl⟩

theorem declared_of_succeeds (h : history.Succeeds) (kind : SymbolKind) :
    history.declared kind =
      ((history.ofRole (.declare kind)).map Prod.fst).filterMap (·.declares?.map Prod.snd) := by
  rw [List.filterMap_map, ofRole, List.filterMap_filter]
  apply List.filterMap_congr
  rintro ⟨op, answer⟩ hmem
  obtain ⟨reply, rfl⟩ := h.exists_reply hmem
  cases op <;> cases kind <;> rfl

theorem chosen_of_succeeds (h : history.Succeeds) :
    history.chosen = ((history.ofRole .choose).map Prod.fst).filterMap Operation.chooses? := by
  rw [List.filterMap_map, ofRole, List.filterMap_filter]
  apply List.filterMap_congr
  rintro ⟨op, answer⟩ hmem
  obtain ⟨reply, rfl⟩ := h.exists_reply hmem
  cases op <;> rfl

theorem ofRole_add (h : history.Succeeds) (hadd : ∀ op reply, (op, .ok reply) ∈ history →
    (op.role = .add ↔ ∃ id, reply = .production id)) :
    history.ofRole .add = history.added.map fun a => (a.1, .ok (.production a.2)) := by
  rw [added, List.map_filterMap, ofRole, ← List.filterMap_eq_filter]
  apply List.filterMap_congr
  rintro ⟨op, answer⟩ hmem
  obtain ⟨reply, rfl⟩ := h.exists_reply hmem
  have hop := hadd op reply hmem
  cases reply <;> simp [Option.guard, hop]

end History

namespace Builder

open Declarations

variable {M : Type → Type} [IndexMap M] [LawfulIndexMap M]

/-- Nothing is refused in either order, and the operations of a role come in the same order. -/
structure Reorders (b : Builder M) (ops ops' : List Operation) : Prop where
  succeeds : (b.history ops).Succeeds
  succeeds' : (b.history ops').Succeeds
  ofRole : ∀ role, ops.filter (·.role = role) = ops'.filter (·.role = role)

section Empty

variable {name package : String} {b : Builder M} {ops ops' : List Operation}

theorem records_performAll (hb : b = empty name package) (ops : List Operation) :
    (b.performAll ops).2.Records (b.history ops) := by
  subst hb
  have hr : (empty name package : Builder M).Records [] := .empty name package
  exact hr.performAll ops

theorem same_of_agrees (hb : b = empty name package) (h : (b.history ops).Agrees (b.history ops')) :
    (b.performAll ops).2.Same (b.performAll ops').2.toDeclarations := by
  obtain ⟨hname, hpackage⟩ := same_name_performAll b ops
  obtain ⟨hname', hpackage'⟩ := same_name_performAll b ops'
  exact (records_performAll hb ops).same (b.performAll ops).2.valid (b.performAll ops').2.valid
    (records_performAll hb ops') (hname.trans hname'.symm) (hpackage.trans hpackage'.symm) h

theorem ofRole_add_history (h : (b.history ops).Succeeds) : (b.history ops).ofRole .add =
    (b.history ops).added.map fun a => (a.1, .ok (.production a.2)) :=
  History.ofRole_add h fun _ _ hmem => (answers_of_mem_history hmem).role_eq_add_iff

theorem added_map_fst (h : (b.history ops).Succeeds) :
    (b.history ops).added.map Prod.fst = ops.filter (·.role = .add) := by
  rw [← ofRole_history_map_fst b, ofRole_add_history h, List.map_map]
  rfl

theorem Reorders.agrees (hb : b = empty name package) (h : b.Reorders ops ops') :
    (b.history ops).Agrees (b.history ops') := by
  have hdeclared : ∀ kind, (b.history ops).declared kind = (b.history ops').declared kind := by
    intro kind
    rw [History.declared_of_succeeds h.succeeds, History.declared_of_succeeds h.succeeds',
      ofRole_history_map_fst, ofRole_history_map_fst, h.ofRole]
  refine ⟨hdeclared, ?_, ?_⟩
  · apply (records_performAll hb ops).drafts_congr (b.performAll ops).2.valid (b.performAll ops').2.valid
      (records_performAll hb ops') hdeclared
    rw [added_map_fst h.succeeds, added_map_fst h.succeeds', h.ofRole]
  · rw [History.chosen_of_succeeds h.succeeds, History.chosen_of_succeeds h.succeeds',
      ofRole_history_map_fst, ofRole_history_map_fst, h.ofRole]

/-- In another order the operations of a role are answered in the same way: with the handles and names
that the builder has at the end, and with ids that count the operations of the role. -/
theorem Reorders.ofRole_history (hb : b = empty name package) (h : b.Reorders ops ops')
    (role : Operation.Role) : (b.history ops).ofRole role = (b.history ops').ofRole role := by
  have hlast := same_of_agrees hb (h.agrees hb)
  by_cases hrole : role = .add
  · obtain rfl := hrole
    have hfst : (b.history ops).added.map Prod.fst = (b.history ops').added.map Prod.fst := by
      rw [added_map_fst h.succeeds, added_map_fst h.succeeds', h.ofRole]
    have hsnd : (b.history ops).added.map Prod.snd = (b.history ops').added.map Prod.snd := by
      rw [(records_performAll hb ops).ids, (records_performAll hb ops').ids, hlast.drafts]
    have hadded := (List.zip_of_prod hfst hsnd).trans (List.zip_of_prod rfl rfl).symm
    rw [ofRole_add_history h.succeeds, ofRole_add_history h.succeeds', hadded]
  · apply eq_of_map_fst
    · rw [ofRole_history_map_fst, ofRole_history_map_fst, h.ofRole]
    · intro op answer answer' hmem hmem'
      obtain ⟨hmem, hop⟩ := List.mem_filter.mp hmem
      obtain ⟨hmem', -⟩ := List.mem_filter.mp hmem'
      obtain ⟨reply, rfl⟩ := h.succeeds.exists_reply hmem
      obtain ⟨reply', rfl⟩ := h.succeeds'.exists_reply hmem'
      have ha : (b.performAll ops').2.Answers op reply :=
        (answers_of_mem_history hmem).mono fun h s hs => by simpa only [symbol?, ← hlast.declared] using hs
      rw [ha.unique (b.performAll ops').2.valid (answers_of_mem_history hmem') (of_decide_eq_true hop ▸ hrole)]

end Empty

end Builder

/-- A builder does not show what was refused in between or how the operations were mixed: the same
declarations of each kind, productions and last start symbol come to the same grammar, or to the same
complaint that there is no start symbol. -/
theorem Builder.leaves_no_trace {M : Type → Type} [IndexMap M] [LawfulIndexMap M] (name package : String)
    (ops ops' : List Operation) :
    let b : Builder M := Builder.empty name package
    let kept := (b.history ops).succeeded.map Prod.fst
    ((b.history ops).Agrees (b.history ops') →
      (b.performAll ops).2.build = (b.performAll ops').2.build) ∧
    (b.history kept = (b.history ops).succeeded ∧
      (b.performAll kept).2.build = (b.performAll ops).2.build) ∧
    (b.Reorders ops ops' → (b.performAll ops).2.build = (b.performAll ops').2.build ∧
      ∀ role, (b.history ops).ofRole role = (b.history ops').ofRole role) := by
  intro b kept
  refine ⟨fun h => build_congr (same_of_agrees rfl h), ?_, fun h => ⟨?_, h.ofRole_history rfl⟩⟩
  · obtain ⟨hhistory, hlast⟩ := performAll_succeeded b ops
    exact ⟨hhistory, congrArg build hlast⟩
  · exact build_congr (same_of_agrees rfl (h.agrees rfl))

/-- The operations of `History.mixed` that are not refused, in another order. -/
def History.settled : List Operation :=
  [.nonterminal "S" [], .start ⟨.nonterminal, 0⟩, .nonterminal "T" [], .start ⟨.nonterminal, 1⟩,
    .terminal "a" [⟨"i32", "value"⟩],
    .production ⟨.nonterminal, 0⟩ [⟨.terminal, 0⟩, ⟨.nonterminal, 0⟩] ["push"], .rule "S" ["a", "T"] []]

theorem Builder.leaves_no_trace_settled :
    let b : Builder := Builder.empty "g" "p"
    let kept := (b.history History.mixed).succeeded.map Prod.fst
    (b.history History.mixed).Agrees (b.history History.settled) ∧ b.Reorders kept History.settled ∧
      (b.performAll History.mixed).2.build = (b.performAll History.settled).2.build ∧
      ∀ role, (b.history kept).ofRole role = (b.history History.settled).ofRole role := by
  intro b kept
  have hagrees : (b.history History.mixed).Agrees (b.history History.settled) := by
    refine ⟨fun kind => ?_, ?_, ?_⟩
    · cases kind <;> decide +kernel
    · decide +kernel
    · decide +kernel
  have hreorders : b.Reorders kept History.settled := by
    refine ⟨?_, ?_, fun role => ?_⟩
    · decide +kernel
    · decide +kernel
    · obtain (_ | _) | _ | _ | _ := role <;> decide +kernel
  obtain ⟨hsame, -, -⟩ := leaves_no_trace (M := Entries) "g" "p" History.mixed History.settled
  obtain ⟨-, -, horder⟩ := leaves_no_trace (M := Entries) "g" "p" kept History.settled
  exact ⟨hagrees, hreorders, hsame hagrees, (horder hreorders).2⟩

end SimpleLR
