import SimpleLR.Journal
import SimpleLR.Proofs.Recognizer.Iterations
import SimpleLR.Proofs.Text.Reading

/-!
# Logs of runs, replayed

The log of a run can be read back. A line in it says what is done, or it shows the stack and the lookahead.
What is done is noted before it is carried out, and only once it has been carried out does it count; still
the log agrees with the counters and with the result, since with the tables of a grammar all that is noted
goes through.
-/
namespace SimpleLR

open Text

/-- What a line of a log says is done. -/
inductive Move
  | shift (target : Nat)
  | reduce (production : Nat)
  | accept
deriving DecidableEq

namespace Move

/-- What a line says is done, unless it shows a stack. -/
def read (line : String) : Option Move :=
  match line.toList.head? with
  | some 'S' => do
    let (target, []) ← readNumberAfter "Shift " line.toList | none
    return shift target
  | some 'R' => do
    let (production, '(' :: _) ← readNumberAfter "Reduce " line.toList | none
    return reduce production
  | some 'A' => if line = "Accept" then some accept else none
  | _ => none

/-- The state that is gone to by a shift. -/
def target? : Move → Option Nat
  | shift target => some target
  | _ => none

/-- The production that is reduced by. -/
def production? : Move → Option Nat
  | reduce production => some production
  | _ => none

variable (g : Grammar) (a : Automaton)

/-- Does on a stack what a move says, if it can be done. -/
def replay (stack : List Nat) : Move → Option (List Nat)
  | shift target => some (target :: stack)
  | reduce production => do
    let p ← g.production? production
    let top :: below := stack.drop p.rhs.length | none
    let target ← a.transition? top p.lhs
    return target :: top :: below
  | accept => some stack

end Move

namespace Log

variable (g : Grammar) (a : Automaton)

/-- Does on a stack what the lines of a log say, one after another, if all of it can be done. -/
def replay (stack : List Nat) (log : List String) : Option (List Nat) :=
  (log.filterMap Move.read).foldlM (Move.replay g a) stack

/-- The states gone to by the shifts in a log. -/
def targets (log : List String) : List Nat := (log.filterMap Move.read).filterMap Move.target?

/-- The productions reduced by in a log. -/
def productions (log : List String) : List Nat := (log.filterMap Move.read).filterMap Move.production?

/-- The line that shows a stack when so many codes of an input have been shifted. -/
def shown (input : List Nat) (stack : List Nat) (shifted : Nat) : String :=
  Event.text g (.moment stack.reverse (.ofInput (input.drop shifted)))

end Log

/-- A log tells how a run over an input goes on from a stack to an outcome, when so many codes have been
shifted and these productions, the latest first, have been reduced by. -/
structure Log.Tells (g : Grammar) (a : Automaton) (input stack : List Nat) (shifted : Nat) (reduced : List Nat)
    (log : List String) (o : Outcome) : Prop where
  /-- All that is noted can be done. -/
  replays : ∃ stack', Log.replay g a stack log = some stack'
  /-- A line that does not say what is done shows the stack that the lines before it lead to, with the code
  that comes behind those shifted. -/
  shows : ∀ before line behind, log = before ++ line :: behind → Move.read line = none →
    ∃ stack', Log.replay g a stack before = some stack' ∧
      line = Log.shown g input stack' (shifted + (Log.targets before).length)
  /-- Before anything is done, the stack is shown. -/
  watches : ∀ before line behind, log = before ++ line :: behind → Move.read line ≠ none →
    ∃ line' ∈ before.getLast?, Move.read line' = none
  shifts : o.stats.shifts = shifted + (Log.targets log).length
  reductions : o.stats.reductions = reduced.length + (Log.productions log).length
  accepts : (∃ ids, o.result = .ok ids) ↔ log.getLast? = some "Accept"
  ids : ∀ ids, o.result = .ok ids → ids = reduced.reverse ++ Log.productions log

variable {g : Grammar} {a : Automaton}

/-- What is noted of an action. -/
def Action.move : Action → Move
  | .shift target => .shift target
  | .reduce item => .reduce item.production
  | .accept => .accept

namespace Move

theorem read_action (act : Action) : read (Event.text g (.action act)) = some act.move := by
  unfold Event.text
  cases act <;> simp [read, readNumberAfter, skip, List.dropPrefix?, Action.move]

theorem read_moment (stack : List Nat) (la : Lookahead) :
    read (Event.text g (.moment stack la)) = none := by
  unfold Event.text
  cases stack <;> simp [read]

@[simp] theorem read_shown (input stack : List Nat) (n : Nat) : read (Log.shown g input stack n) = none :=
  read_moment _ _

@[simp] theorem read_accept : read "Accept" = some accept := by
  simp [read]

end Move

namespace Log

variable {stack : List Nat} {line : String} {move : Move}

@[simp] theorem replay_nil : replay g a stack [] = some stack := rfl

@[simp] theorem replay_shown (input stack' : List Nat) (n : Nat) (log : List String) :
    replay g a stack (shown g input stack' n :: log) = replay g a stack log := by
  simp [replay]

theorem replay_cons (hline : Move.read line = some move) (log : List String) :
    replay g a stack (line :: log) = (move.replay g a stack).bind (replay g a · log) := by
  simp [replay, hline]

@[simp] theorem targets_shown (input stack : List Nat) (n : Nat) (log : List String) :
    targets (shown g input stack n :: log) = targets log := by
  simp [targets]

theorem targets_cons (hline : Move.read line = some move) (log : List String) :
    targets (line :: log) = move.target?.toList ++ targets log := by
  cases move <;> simp [targets, hline, List.filterMap_cons, Move.target?]

@[simp] theorem productions_shown (input stack : List Nat) (n : Nat) (log : List String) :
    productions (shown g input stack n :: log) = productions log := by
  simp [productions]

theorem productions_cons (hline : Move.read line = some move) (log : List String) :
    productions (line :: log) = move.production?.toList ++ productions log := by
  cases move <;> simp [productions, hline, List.filterMap_cons, Move.production?]

theorem shown_ne_accept (input stack : List Nat) (n : Nat) : shown g input stack n ≠ "Accept" := by
  intro h
  have hread := Move.read_shown (g := g) input stack n
  simp [h] at hread

theorem split_cons {first : String} {before behind log : List String}
    (h : first :: log = before ++ line :: behind) :
    before = [] ∧ line = first ∨
      ∃ before', before = first :: before' ∧ log = before' ++ line :: behind := by
  rcases List.cons_eq_append_iff.mp h with ⟨hbefore, hfirst⟩ | hbefore
  · exact .inl ⟨hbefore, (List.cons.inj hfirst).1⟩
  · exact .inr hbefore

/-- A line is the first one, the second one, or one behind these. -/
theorem split_cons_cons {first second : String} {before behind log : List String}
    (h : first :: second :: log = before ++ line :: behind) :
    before = [] ∧ line = first ∨ before = [first] ∧ line = second ∨
      ∃ before', before = first :: second :: before' ∧ log = before' ++ line :: behind := by
  rcases split_cons h with hfirst | ⟨before', rfl, hrest⟩
  · exact .inl hfirst
  · right
    rcases split_cons hrest with ⟨rfl, hsecond⟩ | ⟨before'', rfl, hlog⟩
    · exact .inl ⟨rfl, hsecond⟩
    · exact .inr ⟨before'', rfl, hlog⟩

end Log

namespace Log.Tells

variable {input stack stack' reduced left : List Nat} {line : String} {log : List String} {n : Nat}

/-- Nothing more is noted when a code cannot be read. -/
theorem unreadable (e : RecognizeError) (tokens : Nat) :
    Log.Tells g a input stack n reduced [] ⟨.error e, ⟨tokens, n, reduced.length⟩, left⟩ := by
  constructor <;> simp [Log.targets, Log.productions]

/-- The stack is shown before a lookahead is refused. -/
theorem unexpected (e : RecognizeError) (tokens : Nat) :
    Log.Tells g a input stack n reduced [Log.shown g input stack n]
      ⟨.error e, ⟨tokens, n, reduced.length⟩, left⟩ := by
  constructor
  case replays => simp
  case shows =>
    intro before line behind h _
    obtain ⟨rfl, rfl⟩ | ⟨_, -, h⟩ := Log.split_cons h
    · simp [Log.targets]
    · simp at h
  case watches =>
    intro before line behind h hline
    obtain ⟨rfl, rfl⟩ | ⟨_, -, h⟩ := Log.split_cons h
    · simp at hline
    · simp at h
  case shifts => simp [Log.targets]
  case reductions => simp [Log.productions]
  case accepts => simp [Log.shown_ne_accept]
  case ids => simp

/-- The stack is shown before the input is accepted. -/
theorem accept (tokens : Nat) :
    Log.Tells g a input stack n reduced [Log.shown g input stack n, "Accept"]
      ⟨.ok reduced.reverse, ⟨tokens, n, reduced.length⟩, left⟩ := by
  constructor
  case replays => simp [Log.replay_cons Move.read_accept, Move.replay]
  case shows =>
    intro before line behind h hline
    obtain ⟨rfl, rfl⟩ | ⟨rfl, rfl⟩ | ⟨_, -, h⟩ := Log.split_cons_cons h
    · simp [Log.targets]
    · simp at hline
    · simp at h
  case watches =>
    intro before line behind h hline
    obtain ⟨rfl, rfl⟩ | ⟨rfl, rfl⟩ | ⟨_, -, h⟩ := Log.split_cons_cons h
    · simp at hline
    · simp
    · simp at h
  case shifts => simp [Log.targets, Move.target?]
  case reductions => simp [Log.productions, Move.production?]
  case accepts => simp
  case ids => simp [Log.productions, Move.production?]

/-- What is noted and can be done is told of, if the log goes on from where that leads to. -/
theorem does {move : Move} {o : Outcome} (hline : Move.read line = some move) (hmove : move ≠ .accept)
    (hreplay : move.replay g a stack = some stack')
    (h : Log.Tells g a input stack' (n + move.target?.toList.length)
      (move.production?.toList ++ reduced) log o) :
    Log.Tells g a input stack n reduced (Log.shown g input stack n :: line :: log) o := by
  constructor
  case replays => simpa [Log.replay_cons hline, hreplay] using h.replays
  case shows =>
    intro before line' behind hsplit hline'
    obtain ⟨rfl, rfl⟩ | ⟨rfl, rfl⟩ | ⟨before, rfl, hlog⟩ := Log.split_cons_cons hsplit
    · simp [Log.targets]
    · simp [hline] at hline'
    · obtain ⟨stack'', hbefore, hshown⟩ := h.shows before line' behind hlog hline'
      use stack''
      simp [Log.replay_cons hline, hreplay, Log.targets_cons hline, hbefore, hshown, Nat.add_assoc]
  case watches =>
    intro before line' behind hsplit hline'
    obtain ⟨rfl, rfl⟩ | ⟨rfl, rfl⟩ | ⟨before, rfl, hlog⟩ := Log.split_cons_cons hsplit
    · simp at hline'
    · simp
    · obtain ⟨last, hlast, hread⟩ := h.watches before line' behind hlog hline'
      use last
      simp [List.getLast?_cons, Option.mem_def.mp hlast, hread]
  case shifts =>
    rw [h.shifts]
    simp [Log.targets_cons hline, Nat.add_assoc]
  case reductions =>
    rw [h.reductions]
    simp [Log.productions_cons hline]
    omega
  case accepts =>
    rw [h.accepts]
    have hne : line ≠ "Accept" := by
      rintro rfl
      simp [hmove.symm] at hline
    cases log with
    | nil => simp [hne]
    | cons line' log => simp [List.getLast?_cons]
  case ids =>
    intro ids hids
    rw [h.ids ids hids]
    cases move <;> simp [Log.productions_cons hline, Move.production?]

end Log.Tells

namespace Log

/-- The lines about the moments of a run. -/
def ofMoments (g : Grammar) (a : Automaton) (moments : List Config) : List String :=
  (moments.flatMap (Event.ofConfig a)).map (Event.text g)

@[simp] theorem ofMoments_nil : ofMoments g a [] = [] := rfl

/-- The stack is shown, then what is done is noted, if anything is. -/
theorem ofMoments_cons (s : Nat) (below x y reduced : List Nat) (moments : List Config) :
    ofMoments g a (.moment (s :: below) x y reduced :: moments) =
      shown g (x ++ y) (s :: below) x.length ::
        ((a.action? s (.ofInput y)).map fun act => Event.text g (.action act)).toList ++
          ofMoments g a moments := by
  cases haction : a.action? s (.ofInput y) <;>
    simp [ofMoments, Event.ofConfig, Config.moment, shown, haction]

end Log

theorem Grammar.Readable.mem_lookaheads {y : List Nat} (h : g.Readable y) :
    Lookahead.ofInput y ∈ Follow.lookaheads g := by
  cases y with
  | nil => simp [Lookahead.ofInput, Follow.lookaheads]
  | cons c y => exact Follow.terminal_mem_lookaheads.mpr (Grammar.readable_cons.mp h)

namespace Progress

variable {s : Nat} {c : Config} {cs : List Config} {below stack γ x y reduced : List Nat} {la : Lookahead}
  {st : State}

/-- What is noted at the moments that a run passes on its way to its outcome tells of the run. -/
def ToldFrom (g : Grammar) (a : Automaton) (cs : List Config) (stack x y reduced : List Nat) (p : Progress) :
    Prop :=
  ∀ o, Passes g a p cs (.ended o) →
    Log.Tells g a (x ++ y) stack x.length reduced (Log.ofMoments g a cs) o

/-- If the next code cannot be read, nothing more is noted. -/
theorem toldFrom_read (h : g.Readable y →
      ToldFrom g a cs stack x y reduced (.running (.moment stack x y reduced))) :
    ToldFrom g a cs stack x y reduced ((Config.unread stack x y reduced la).read g) := by
  rcases g.readable_or y with hy | ⟨c, y, rfl, hc⟩
  · rw [Config.read_eq_running hy]
    exact h hy
  · intro o ho
    rw [Config.read_eq_ended hc] at ho
    cases ho
    exact .unreadable _ _

section

variable (ha : Automaton.build g (Facts.ofGrammar g) = .ok a)
  (hv : Config.Valid g (s :: below) γ x y reduced) (hs : g.states[s]? = some st)
  (ih : ∀ {stack γ x y reduced}, Config.Valid g stack γ x y reduced →
    ToldFrom g a cs stack x y reduced (.running (.moment stack x y reduced)))

include ha hv hs ih

theorem toldFrom_shift {t : Nat} (h : a.action? s (.ofInput y) = some (.shift t)) :
    ToldFrom g a (c :: cs) (s :: below) x y reduced (.running (.moment (s :: below) x y reduced)) := by
  obtain ⟨c, hc, ht⟩ := Automaton.of_action?_shift ha hs h
  obtain ⟨y, rfl⟩ := Lookahead.eq_cons_of_ofInput hc
  rintro o (_ | hpasses)
  have hread : ToldFrom g a cs (t :: s :: below) (x ++ [c]) y reduced
      ((Config.unread (t :: s :: below) (x ++ [c]) y reduced (.terminal c)).read g) :=
    toldFrom_read fun hy => ih ⟨hv.spells.push hs ht,
      hv.yields.shift (Grammar.readable_cons.mp hv.readable), hy⟩
  rw [Config.step_shift h] at hpasses
  rw [Log.ofMoments_cons, h]
  have htells := hread o hpasses
  rw [List.append_assoc, List.length_append] at htells
  exact .does (Move.read_action _) (by simp [Action.move]) rfl htells

theorem toldFrom_reduce {i : Item} (h : a.action? s (.ofInput y) = some (.reduce i)) :
    ToldFrom g a (c :: cs) (s :: below) x y reduced (.running (.moment (s :: below) x y reduced)) := by
  have hla : Lookahead.ofInput y ∈ Follow.lookaheads g := hv.readable.mem_lookaheads
  obtain ⟨p, hp, h0, rfl, hi⟩ := Automaton.exists_production_of_reduce ha hs hla h
  obtain ⟨q, d, ω, hpq, hopen⟩ := hv.spells.exists_open hs hi
  obtain ⟨rfl, rfl⟩ := (Production.itemAt_inj hp hopen.mem).mp hpq
  obtain ⟨γ', top, below', st', t, rfl, hdrop, hunder, hst', ht⟩ := hopen.exists_goto h0 hv.spells
  have htransition := (Automaton.transition?_eq ha hst' p.lhs).trans ht
  have hstep : (Config.moment (s :: below) x y reduced).step g a =
      .running (.moment (t :: top :: below') x y (p.id :: reduced)) := by
    rw [Config.step_reduce h (Grammar.production?_id hp), Config.reduce_eq_running hdrop htransition]
  have hreplay : (Move.reduce p.id).replay g a (s :: below) = some (t :: top :: below') := by
    simp [Move.replay, Grammar.production?_id hp, hdrop, htransition]
  rintro o (_ | hpasses)
  rw [hstep] at hpasses
  rw [Log.ofMoments_cons, h]
  exact .does (Move.read_action _) (by simp [Action.move]) hreplay
    (ih ⟨hunder.push hst' ht, hv.yields.complete hp, hv.readable⟩ o hpasses)

end

/-- What a run from a valid moment notes tells of it. -/
theorem toldFrom_moment (ha : Automaton.build g (Facts.ofGrammar g) = .ok a)
    (hv : Config.Valid g stack γ x y reduced) :
    ToldFrom g a cs stack x y reduced (.running (.moment stack x y reduced)) := by
  induction cs generalizing stack γ x y reduced with
  | nil =>
    intro o ho
    cases ho
  | cons c cs ih =>
    obtain ⟨s, below, st, rfl, hs⟩ := hv.spells.exists_top
    cases haction : a.action? s (.ofInput y) with
    | none =>
      rintro o (_ | hpasses)
      rw [Config.step_unexpected haction] at hpasses
      cases hpasses
      rw [Log.ofMoments_cons, haction]
      exact .unexpected _ _
    | some action =>
      cases action with
      | shift t => exact toldFrom_shift ha hv hs ih haction
      | reduce i => exact toldFrom_reduce ha hv hs ih haction
      | accept =>
        rintro o (_ | hpasses)
        rw [Config.step_accept haction] at hpasses
        cases hpasses
        rw [Log.ofMoments_cons, haction]
        exact .accept _

theorem toldFrom_start (ha : Automaton.build g (Facts.ofGrammar g) = .ok a) (input : List Nat) :
    ToldFrom g a cs [0] [] input [] (start g a input) := by
  apply start_induction (ToldFrom g a cs [0] [] input []) (Automaton.exists_accepting ha)
  · exact fun hinput => toldFrom_moment ha ⟨.bottom, .nil, hinput⟩
  · rintro c y rfl - o ho
    cases ho
    exact .unreadable _ _

end Progress

/-- The texts of the messages of all levels that accompany a run over a list of codes. -/
def Recognizer.log (r : Recognizer) (fuel : Nat) (input : List Nat) : List String :=
  (Journal.messages .trace (Journal.ofRun r fuel (.codes input))).map Message.text

theorem Recognizer.log_eq (r : Recognizer) (fuel : Nat) (input : List Nat) :
    r.log fuel input = Log.ofMoments r.grammar r.automaton
      (Progress.moments r.grammar r.automaton fuel (r.start input)) := by
  simp [log, Journal.messages, Journal.ofRun, Recognizer.codesOf, Level.keeps, Event.transcript,
    Log.ofMoments]

/-- With the tables of a grammar, and after any runs before, the log of a run that ends tells what it has
done. Its shifts and reductions can be replayed one after another from state 0 alone, each stack in it is the
one that they have led to, and there are as many of them as are counted. The run succeeds if and only if the
log ends with an acceptance, and then its result is what the log reduces by. -/
theorem recognize_tells {t : Tables} (ht : Tables.build g = .ok t) {r : Recognizer}
    (hr : (Recognizer.new t.grammar t.automaton).Becomes r) {fuel : Nat} {input : List Nat}
    {result : Except RecognizeError (List Nat)} {after : Recognizer}
    (h : r.recognize fuel input = some (result, after)) :
    Log.Tells g t.automaton input [0] 0 [] (r.log fuel input) ⟨result, after.stats, after.states⟩ := by
  obtain ⟨hgrammar, hautomaton⟩ := hr.same
  obtain ⟨hg, ha⟩ := Tables.build_eq_ok ht
  have hgrammar : r.grammar = g := hgrammar.trans hg
  have hautomaton : r.automaton = t.automaton := hautomaton
  obtain ⟨o, hrun, rfl, rfl⟩ := Recognizer.recognize_eq_some.mp h
  rw [hgrammar, hautomaton] at hrun
  rw [Recognizer.log_eq, r.start_eq, hgrammar, hautomaton]
  exact Progress.toldFrom_start ha input o (Progress.passes_of_run hrun)

/-- After a run on `abb`, which fails, the recognizer of the grammar `S → a S b | ε` accepts `ab`. -/
theorem recognize_tells_balanced : ∃ t r after,
    Tables.build .balanced = .ok t ∧ (Recognizer.new t.grammar t.automaton).Becomes r ∧
      r.states = [1, 0] ∧ r.recognize 10 [3, 4] = some (.ok [2, 1], after) ∧
      r.log 10 [3, 4] = ["<0> <-  a", "Shift 2", "<0> <2> <-  b", "Reduce 2(S -> .)",
        "<0> <2> <3> <-  b", "Shift 4", "<0> <2> <3> <4> <-  $", "Reduce 1(S -> a S b .)",
        "<0> <1> <-  $", "Accept"] ∧
      Log.Tells .balanced t.automaton [3, 4] [0] 0 [] (r.log 10 [3, 4])
        ⟨.ok [2, 1], after.stats, after.states⟩ := by
  have hrun : ((Tables.build .balanced).toOption.bind fun t =>
      ((Recognizer.new t.grammar t.automaton).take 10 (.codes [3, 4, 4])).bind fun p =>
        (p.2.recognize 10 [3, 4]).map fun q => (p.2.states, q.1, p.2.log 10 [3, 4])) =
      some ([1, 0], .ok [2, 1], ["<0> <-  a", "Shift 2", "<0> <2> <-  b", "Reduce 2(S -> .)",
        "<0> <2> <3> <-  b", "Shift 4", "<0> <2> <3> <4> <-  $", "Reduce 1(S -> a S b .)",
        "<0> <1> <-  $", "Accept"]) := by
    decide +kernel
  obtain ⟨t, ht, hrun⟩ := Option.bind_eq_some_iff.mp hrun
  obtain ⟨⟨_, r⟩, hbefore, hrun⟩ := Option.bind_eq_some_iff.mp hrun
  obtain ⟨⟨result, after⟩, hrun, hresult⟩ := Option.map_eq_some_iff.mp hrun
  obtain ⟨hstates, hresult⟩ := Prod.mk.inj hresult
  obtain ⟨rfl, hlog⟩ := Prod.mk.inj hresult
  have ht := eq_ok_of_toOption ht
  have hr : (Recognizer.new t.grammar t.automaton).Becomes r := .single ⟨10, _, _, hbefore⟩
  exact ⟨t, r, after, ht, hr, hstates, hrun, hlog, recognize_tells ht hr hrun⟩

end SimpleLR
