import TreeLint.Log
import TreeLint.Report
import TreeLint.Rule.Scripted
import TreeLint.Workspace
import TreeLint.Proofs.Outline
import TreeLint.Proofs.PreOrder
import TreeLint.Proofs.OpenPath
import TreeLint.Proofs.Numbering
import TreeLint.Proofs.Listing
import TreeLint.Proofs.Linking
import TreeLint.Proofs.Liveness
import TreeLint.Proofs.ParentLinks
import TreeLint.Proofs.Histories
import TreeLint.Proofs.Acceptance
import TreeLint.Proofs.Planting
import TreeLint.Proofs.Validity
import TreeLint.Proofs.RoundTrip
import TreeLint.Proofs.Dispatch
import TreeLint.Proofs.Isolation
import TreeLint.Proofs.Cancellation
import TreeLint.Proofs.Interleaving
import TreeLint.Proofs.EntryPoints
import TreeLint.Proofs.Loading
import TreeLint.Proofs.Replanting
import TreeLint.Proofs.Ledger
import TreeLint.Proofs.Refusal
import TreeLint.Proofs.Recasting
import TreeLint.Proofs.Locality
import TreeLint.Proofs.Location
import TreeLint.Proofs.Parts
import TreeLint.Proofs.Filling
import TreeLint.Proofs.Nesting
import TreeLint.Proofs.Slicing
import TreeLint.Proofs.Branching
import TreeLint.Proofs.Composition
import TreeLint.Proofs.Writability
import TreeLint.Proofs.ProperTree
import TreeLint.Proofs.Revalidation
import TreeLint.Proofs.Positions
import TreeLint.Proofs.VisitOrder
import TreeLint.Proofs.Blocks
import TreeLint.Proofs.Navigation
import TreeLint.Proofs.Faultless
import TreeLint.Proofs.TypeNames
import TreeLint.Proofs.Starts
import TreeLint.Proofs.Tables
import TreeLint.Proofs.Frontier
import TreeLint.Proofs.RowReports
import TreeLint.Proofs.SwitchNesting
import TreeLint.Proofs.KeywordNames
import TreeLint.Proofs.LoopExpressions
import TreeLint.Proofs.EnumMembers
import TreeLint.Proofs.ThrownCreations
import TreeLint.Proofs.FieldModifiers
import TreeLint.Proofs.SinkSessions
import TreeLint.Proofs.StackWalk
