import SimpleLR.Automaton.Basic
import SimpleLR.Automaton.Collection
import SimpleLR.Automaton.Conflict
import SimpleLR.Automaton.ReduceTable
import SimpleLR.Facts.Basic
import SimpleLR.Facts.First
import SimpleLR.Facts.Follow
import SimpleLR.Facts.Nullable
import SimpleLR.Grammar.Basic
import SimpleLR.Grammar.Build
import SimpleLR.Grammar.Builder
import SimpleLR.Grammar.Declarations
import SimpleLR.Grammar.Error
import SimpleLR.Grammar.Listing
import SimpleLR.Grammar.Operation
import SimpleLR.Grammar.Outline
import SimpleLR.Grammar.Symtab
import SimpleLR.Item.Basic
import SimpleLR.Item.Closure
import SimpleLR.Iterate
import SimpleLR.Journal
import SimpleLR.Lookahead
import SimpleLR.OrdSet
import SimpleLR.Proofs.Automaton.Accepting
import SimpleLR.Proofs.Automaton.Accessing
import SimpleLR.Proofs.Automaton.Actions
import SimpleLR.Proofs.Automaton.Cells
import SimpleLR.Proofs.Automaton.Chains
import SimpleLR.Proofs.Automaton.Conflict
import SimpleLR.Proofs.Automaton.Discovery
import SimpleLR.Proofs.Automaton.Exploration
import SimpleLR.Proofs.Automaton.FirstConflict
import SimpleLR.Proofs.Automaton.Numbering
import SimpleLR.Proofs.Automaton.Paths
import SimpleLR.Proofs.Automaton.ReduceTable
import SimpleLR.Proofs.Automaton.States
import SimpleLR.Proofs.Automaton.Termination
import SimpleLR.Proofs.Automaton.ViablePrefix
import SimpleLR.Proofs.Derivation
import SimpleLR.Proofs.Embedding.Basic
import SimpleLR.Proofs.Embedding.Correspondence
import SimpleLR.Proofs.Embedding.DeadRules
import SimpleLR.Proofs.Embedding.Reordering
import SimpleLR.Proofs.Embedding.States
import SimpleLR.Proofs.Embedding.Tables
import SimpleLR.Proofs.Except
import SimpleLR.Proofs.Facts.Closed
import SimpleLR.Proofs.Facts.Exact
import SimpleLR.Proofs.Facts.Flags
import SimpleLR.Proofs.Facts.Idle
import SimpleLR.Proofs.Facts.Least
import SimpleLR.Proofs.Facts.Lookaheads
import SimpleLR.Proofs.Facts.Models
import SimpleLR.Proofs.Facts.Reports
import SimpleLR.Proofs.Facts.Saturation
import SimpleLR.Proofs.Grammar.Built
import SimpleLR.Proofs.Grammar.History
import SimpleLR.Proofs.Grammar.Interleaving
import SimpleLR.Proofs.Item.Basic
import SimpleLR.Proofs.Item.Canonical
import SimpleLR.Proofs.Item.Closure
import SimpleLR.Proofs.Item.LeastClosure
import SimpleLR.Proofs.Item.Rendering
import SimpleLR.Proofs.Iterate
import SimpleLR.Proofs.Lookups.Facts
import SimpleLR.Proofs.Lookups.States
import SimpleLR.Proofs.Lookups.Tables
import SimpleLR.Proofs.Messages
import SimpleLR.Proofs.Recognizer.Accounting
import SimpleLR.Proofs.Recognizer.Completeness
import SimpleLR.Proofs.Recognizer.Errors
import SimpleLR.Proofs.Recognizer.Iterations
import SimpleLR.Proofs.Recognizer.Moments
import SimpleLR.Proofs.Recognizer.Replay
import SimpleLR.Proofs.Recognizer.Safety
import SimpleLR.Proofs.Recognizer.Soundness
import SimpleLR.Proofs.Recognizer.Steps
import SimpleLR.Proofs.Recognizer.Termination
import SimpleLR.Proofs.Recognizer.Unambiguity
import SimpleLR.Proofs.Report.Columns
import SimpleLR.Proofs.Report.Records
import SimpleLR.Proofs.Text.Reading
import SimpleLR.Recognizer.Run
import SimpleLR.Recognizer.Session
import SimpleLR.Recognizer.Transcript
import SimpleLR.Report.Records
import SimpleLR.Report.Sections
import SimpleLR.Tables
import SimpleLR.Text.Combining
import SimpleLR.Text.Printable
import SimpleLR.Text.Quoted
import SimpleLR.Text.Ranges
