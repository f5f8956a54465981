import EntityGraph.Json.Reader
import EntityGraph.Json.Writer
import EntityGraph.Entity.Encode
import EntityGraph.Options.Layers
import EntityGraph.Graph.Query
import EntityGraph.Proofs.Coherence
import EntityGraph.Proofs.Steps
import EntityGraph.Proofs.Builders
import EntityGraph.Proofs.Pass
import EntityGraph.Proofs.Finished
import EntityGraph.Proofs.Faithfulness
import EntityGraph.Proofs.Kinds
import EntityGraph.Proofs.Partition
import EntityGraph.Proofs.Script
import EntityGraph.Proofs.Agenda
import EntityGraph.Proofs.Plays
import EntityGraph.Proofs.Accounts
import EntityGraph.Proofs.Ledger
import EntityGraph.Proofs.Reached
import EntityGraph.Proofs.Reordering
import EntityGraph.Proofs.Rounds
import EntityGraph.Proofs.Congruence
import EntityGraph.Proofs.Deepening
import EntityGraph.Proofs.Nesting
import EntityGraph.Proofs.Cuts
import EntityGraph.Proofs.Links
import EntityGraph.Proofs.Histories
import EntityGraph.Proofs.Modules
import EntityGraph.Proofs.Privacy
import EntityGraph.Proofs.Ownership
import EntityGraph.Proofs.Forest
import EntityGraph.Proofs.Requests
import EntityGraph.Proofs.Singletons
import EntityGraph.Proofs.Indexing
import EntityGraph.Proofs.Unread
import EntityGraph.Proofs.Padding
import EntityGraph.Proofs.Places
import EntityGraph.Proofs.FirstAsked
import EntityGraph.Proofs.Traversal
import EntityGraph.Proofs.Recognition
import EntityGraph.Proofs.Signatures
import EntityGraph.Proofs.Literals
import EntityGraph.Proofs.PropertyNames
import EntityGraph.Proofs.Rules
import EntityGraph.Proofs.Classes
import EntityGraph.Proofs.Columns
import EntityGraph.Proofs.Encoding
import EntityGraph.Proofs.Register
import EntityGraph.Proofs.Frames
