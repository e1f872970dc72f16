import SimpleLR.Proofs.Text.Reading
import SimpleLR.Tables

/-!
# What messages tell

The message about an error tells which error it is: it can be read back. Its first words tell the kind of the
error, and then the numbers and names in it can be read one after another, since it is known which words stand
between them. A name may be any text, also one that looks like a part of a message, but it ends where its
quotation ends. So no two errors have the same message.
-/
namespace SimpleLR

open Text

/-- The kind of symbol that a text begins with. -/
def SymbolKind.read (text : List Char) : Option (SymbolKind × List Char) :=
  (skip "nonterminal" text).map (nonterminal, ·) <|> (skip "terminal" text).map (terminal, ·)

/-- The error of grammar building that a message is about. -/
def GrammarError.read (text : List Char) : Option GrammarError :=
  match text.head? with
  | some 's' =>
    (readQuotedAfter "symbol " text).map (fun p => duplicateSymbol p.1) <|>
      (readQuotedAfter "symbol name " text).map fun p => reservedName p.1
  | some 'u' => (readQuotedAfter "unknown symbol " text).map fun p => unknownSymbol p.1
  | some 'l' => (readQuotedAfter "left-hand side " text).map fun p => leftSideNotNonterminal p.1
  | some 'i' => do
    let (kind, text) ← SymbolKind.read (← skip "invalid " text)
    let (index, text) ← readNumberAfter " handle " text
    let (declared, _) ← readNumberAfter " (only " text
    return invalidHandle kind index declared
  | _ => (skip "no start symbol declared" text).map fun _ => missingStart

/-- The lookahead that a text shows. -/
def Lookahead.read (text : List Char) : Option Lookahead :=
  (readNumberAfter "symbol " text).map (fun p => terminal p.1) <|>
    (skip "$" text).map fun _ => endOfInput

/-- The conflict that a message is about. -/
def Conflict.read (text : List Char) : Option Conflict :=
  match text.head? with
  | some 's' => do
    let (state, text) ← readNumberAfter "shift/reduce conflict in state " text
    let (production, text) ← readNumberAfter ": reduce by production " text
    let (symbol, text) ← readNumberAfter " vs. shift on symbol " text
    let (target, _) ← readNumberAfter " to state " text
    return shiftReduce state production symbol target
  | _ => do
    let (state, text) ← readNumberAfter "reduce/reduce conflict in state " text
    let (existing, text) ← readNumberAfter ": productions " text
    let (incoming, text) ← readNumberAfter " and " text
    let lookahead ← Lookahead.read (← skip " on " text)
    return reduceReduce state existing incoming lookahead

/-- What a message says that there is not. -/
def Dangling.read (text : List Char) : Option Dangling :=
  (readNumberAfter "there is no production " text).map (fun p => production p.1) <|>
    (readNumberAfter "there is no nonterminal " text).map (fun p => nonterminal p.1) <|>
      (readNumberAfter "there is no column " text).map fun p => column p.1

/-- The reason for which there is no table, from the message about it. -/
def TableError.read (text : List Char) : Option TableError :=
  (Conflict.read text).map conflict <|> (Dangling.read text).map dangling

/-- The error that a message is about, whichever part it comes from. -/
def BuildError.read (text : List Char) : Option BuildError :=
  ((skip "grammar error: " text).bind GrammarError.read).map grammar <|> (TableError.read text).map table

theorem GrammarError.read_messageBy (hidden : Char → Bool) (e : GrammarError) :
    read (e.messageBy (quoteBy hidden)).toList = some e := by
  unfold messageBy
  cases e with
  | duplicateSymbol name => simp [read, readQuotedAfter, skip, List.dropPrefix?]
  | unknownSymbol name => simp [read, readQuotedAfter, skip, List.dropPrefix?]
  | invalidHandle kind index declared =>
    cases kind <;>
      simp [read, SymbolKind.read, SymbolKind.describe, readNumberAfter, skip, List.dropPrefix?]
  | leftSideNotNonterminal name => simp [read, readQuotedAfter, skip, List.dropPrefix?]
  | missingStart => simp [read, skip, List.dropPrefix?]
  | reservedName name => simp [read, readQuotedAfter, skip, List.dropPrefix?]

theorem Lookahead.read_describe (la : Lookahead) : read la.describe.toList = some la := by
  cases la <;> simp [read, describe, readNumberAfter, skip, List.dropPrefix?]

theorem Conflict.read_message (c : Conflict) : read c.message.toList = some c := by
  unfold message
  cases c with
  | shiftReduce state production symbol target =>
    simp [read, readNumberAfter, skip, List.dropPrefix?]
  | reduceReduce state existing incoming lookahead =>
    simp [read, readNumberAfter, skip, List.dropPrefix?, Lookahead.read_describe]

theorem Dangling.read_message (d : Dangling) : read d.message.toList = some d := by
  unfold message
  cases d <;> simp [read, readNumberAfter, skip, List.dropPrefix?]

theorem TableError.read_message (e : TableError) : read e.message.toList = some e := by
  cases e with
  | conflict c => simp [read, message, Conflict.read_message]
  | dangling d =>
    have hnone : Conflict.read d.message.toList = none := by
      unfold Dangling.message
      cases d <;> simp [Conflict.read, readNumberAfter, skip, List.dropPrefix?]
    simp [read, message, hnone, Dangling.read_message]

/-- A message about a table cannot be taken for one about the building of a grammar. -/
theorem TableError.skip_message (e : TableError) : skip "grammar error: " e.message.toList = none := by
  cases e with
  | conflict c =>
    unfold message Conflict.message
    cases c <;> simp [skip, List.dropPrefix?]
  | dangling d =>
    unfold message Dangling.message
    cases d <;> simp [skip, List.dropPrefix?]

theorem BuildError.read_messageBy (hidden : Char → Bool) (e : BuildError) :
    read (e.messageBy (quoteBy hidden)).toList = some e := by
  unfold messageBy
  cases e with
  | grammar e => simp [read, skip, List.dropPrefix?, GrammarError.read_messageBy]
  | table e => simp [read, TableError.skip_message, TableError.read_message]

/-- Where messages can be read back, no two of them are the same. -/
theorem injective_of_read {α : Type} {message : α → String} {read : List Char → Option α}
    (h : ∀ e, read (message e).toList = some e) : Function.Injective message := by
  intro e e' heq
  have hread := h e
  rw [heq, h e'] at hread
  exact (Option.some.inj hread).symm

/-- No two errors of grammar building, no two conflicts and no two errors of either part have the same message.
That does not depend on which characters of a name are written by their code points. -/
theorem messages_injective :
    (Function.Injective GrammarError.message ∧ Function.Injective Conflict.message ∧
      Function.Injective BuildError.message) ∧
    ∀ hidden : Char → Bool, Function.Injective (GrammarError.messageBy (quoteBy hidden)) ∧
      Function.Injective (BuildError.messageBy (quoteBy hidden)) := by
  have hgrammar := fun hidden => injective_of_read (GrammarError.read_messageBy hidden)
  have hbuild := fun hidden => injective_of_read (BuildError.read_messageBy hidden)
  exact ⟨⟨hgrammar isHidden, injective_of_read Conflict.read_message, hbuild isHidden⟩,
    fun hidden => ⟨hgrammar hidden, hbuild hidden⟩⟩

end SimpleLR
