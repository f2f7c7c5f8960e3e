import CodeIndex.ChunkId
import CodeIndex.Command
import CodeIndex.Command.Arguments
import CodeIndex.Command.Database
import CodeIndex.Command.History
import CodeIndex.Command.Run
import CodeIndex.Config
import CodeIndex.Config.File
import CodeIndex.Config.Json
import CodeIndex.Element
import CodeIndex.Element.Json
import CodeIndex.Embedding
import CodeIndex.Embedding.Hashed
import CodeIndex.Embedding.Lookup
import CodeIndex.Embedding.Model
import CodeIndex.Embedding.Tokenizer
import CodeIndex.Extraction
import CodeIndex.Extraction.Docs
import CodeIndex.Hash.Sip
import CodeIndex.IndexRun
import CodeIndex.Json
import CodeIndex.Json.Decode
import CodeIndex.Json.Printer
import CodeIndex.Json.Reader
import CodeIndex.Json.Real
import CodeIndex.Json.Token
import CodeIndex.Language
import CodeIndex.Main
import CodeIndex.Metadata
import CodeIndex.ModulePieces
import CodeIndex.Numeric.Binary
import CodeIndex.Numeric.Shortest
import CodeIndex.Reconcile
import CodeIndex.Report
import CodeIndex.Store
import CodeIndex.Store.Declaration
import CodeIndex.Store.Registry
import CodeIndex.Store.Search
import CodeIndex.Store.Vectors
import CodeIndex.Store.Width
import CodeIndex.Syntax
import CodeIndex.Syntax.Json
import CodeIndex.Text.Bytes
import CodeIndex.Text.Digits
import CodeIndex.Text.Whitespace
import CodeIndex.Workspace
import CodeIndex.Workspace.Glob
import CodeIndex.Workspace.Glob.Reader
import CodeIndex.Workspace.Ignore
import CodeIndex.Workspace.Json
import CodeIndex.Workspace.Path
import CodeIndex.Workspace.Walk
import CodeIndex.Proofs.ChunkId
import CodeIndex.Proofs.Traversal
import CodeIndex.Proofs.Store.VectorMap
import CodeIndex.Proofs.Width
import CodeIndex.Proofs.Store.Swap
import CodeIndex.Proofs.Store.Invariant
import CodeIndex.Proofs.Store.Run
import CodeIndex.Proofs.Store.Replacement
import CodeIndex.Proofs.Reconcile
import CodeIndex.Proofs.Json.Tokens
import CodeIndex.Proofs.Metadata
import CodeIndex.Proofs.Reconcile.Outcome
import CodeIndex.Proofs.Store.Hits
import CodeIndex.Proofs.Agreement
import CodeIndex.Proofs.Store.Renaming
import CodeIndex.Proofs.Reconcile.Sections
import CodeIndex.Proofs.Reconcile.Listing
import CodeIndex.Proofs.Reconcile.Schedule
import CodeIndex.Proofs.Reconcile.Tracking
import CodeIndex.Proofs.Reconcile.Interleaving
import CodeIndex.Proofs.Numeric.Zero
import CodeIndex.Proofs.Store.Catalog
import CodeIndex.Proofs.Store.Distance
import CodeIndex.Proofs.Workspace.Walk
import CodeIndex.Proofs.IndexRun
import CodeIndex.Proofs.IndexRun.Rerun
import CodeIndex.Proofs.IndexRun.Keys
import CodeIndex.Proofs.Store.FileNumbers
import CodeIndex.Proofs.Store.Removal
import CodeIndex.Proofs.Reconcile.Forgetting
import CodeIndex.Proofs.Workspace.Databases
import CodeIndex.Proofs.Command.Persistence
import CodeIndex.Proofs.Command.Repair
import CodeIndex.Proofs.Command.Failing
import CodeIndex.Proofs.Store.Feedback
import CodeIndex.Proofs.Text.Lines
import CodeIndex.Proofs.Text.Trim
import CodeIndex.Proofs.ModulePieces
import CodeIndex.Proofs.ModulePieces.Budget
import CodeIndex.Proofs.Config.Saving
import CodeIndex.Proofs.Store.Nearest
import CodeIndex.Proofs.Reconcile.Fallback
import CodeIndex.Proofs.Traversal.Parents
import CodeIndex.Proofs.Reconcile.DocumentOrder
import CodeIndex.Proofs.Json.Grammar
import CodeIndex.Proofs.Json.Numbers
import CodeIndex.Proofs.Traversal.Docs
import CodeIndex.Proofs.Config.Partial
import CodeIndex.Proofs.Element
import CodeIndex.Proofs.Text.Words
import CodeIndex.Proofs.Traversal.Quotes
import CodeIndex.Proofs.Embedding.Layout
import CodeIndex.Proofs.Embedding.Tokenizer
import CodeIndex.Proofs.Embedding.Lookup
import CodeIndex.Proofs.Store.Identifiers
import CodeIndex.Proofs.Text.Bytes
import CodeIndex.Proofs.Traversal.Texts

