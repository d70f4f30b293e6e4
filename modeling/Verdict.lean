import Verdict.Archive.Manifest
import Verdict.Artifact.Basic
import Verdict.Artifact.EntryPath
import Verdict.Build
import Verdict.Closure
import Verdict.CommandLine.Command
import Verdict.Compilation.Library
import Verdict.Diagnostic
import Verdict.Digest.Sha256
import Verdict.Evaluation.Evaluator
import Verdict.Evaluation.Evidence
import Verdict.Main
import Verdict.Source.Library
import Verdict.Store
import Verdict.Validation.Unit
import Verdict.Proofs.Context
import Verdict.Proofs.Closure.Search
import Verdict.Proofs.Closure.Exactness
import Verdict.Proofs.Results
import Verdict.Proofs.Source
import Verdict.Proofs.Compilation.Document
import Verdict.Proofs.Compilation.Library
import Verdict.Proofs.Binary64.Rounding
import Verdict.Proofs.Decimal.Interval
import Verdict.Proofs.Decimal.Shortest
import Verdict.Proofs.Json.Lexeme
import Verdict.Proofs.Json.Number
import Verdict.Proofs.Json.Reading
import Verdict.Proofs.Json.Extent
import Verdict.Proofs.Json.Sorting
import Verdict.Proofs.Json.Records
import Verdict.Proofs.Payload.Plain
import Verdict.Proofs.Payload.Rule
import Verdict.Proofs.Payload.EvidenceType
import Verdict.Proofs.Payload.Expression
import Verdict.Proofs.Payload.Portable
import Verdict.Proofs.Artifact.Envelope
import Verdict.Proofs.Artifact.EntryPath
import Verdict.Proofs.Compilation.Portable
import Verdict.Proofs.FileTree.Graft
import Verdict.Proofs.FileTree.Writing
import Verdict.Proofs.FileTree.Directories
import Verdict.Proofs.FileTree.Walk
import Verdict.Proofs.Archive.Loading
import Verdict.Proofs.Archive.RoundTrip
import Verdict.Proofs.Archive.Loaded
import Verdict.Proofs.Evaluation.Evaluator
import Verdict.Proofs.Build.Soundness
import Verdict.Proofs.Compilation.Reference
import Verdict.Proofs.Compilation.Expression
import Verdict.Proofs.Compilation.Layering
import Verdict.Proofs.Validation.Agreement
import Verdict.Proofs.Compilation.FieldOrder
import Verdict.Proofs.Archive.Consistency
import Verdict.Proofs.Artifact.Stability
import Verdict.Proofs.Archive.Manifest
import Verdict.Proofs.Archive.Collisions
import Verdict.Proofs.Store.History
import Verdict.Proofs.Store.Recency
import Verdict.Proofs.Compilation.Lifecycle
import Verdict.Proofs.Store.Inclusion
import Verdict.Proofs.Evaluation.Vacuity
import Verdict.Proofs.Compilation.Readable
import Verdict.Proofs.Archive.Refusal
import Verdict.Proofs.Build.FailClosed
import Verdict.Proofs.Build.Report
import Verdict.Proofs.Archive.Stamping
import Verdict.Proofs.Closure.Extension
import Verdict.Proofs.Build.Extension
import Verdict.Proofs.Evaluation.Formula
import Verdict.Proofs.Evaluation.Monotonicity
import Verdict.Proofs.Evaluation.Questions
import Verdict.Proofs.Source.Loading
import Verdict.Proofs.Source.Agreement
import Verdict.Proofs.Evaluation.Lookups
import Verdict.Proofs.Evaluation.Nesting
import Verdict.Proofs.Binary64.Integers
import Verdict.Proofs.Evaluation.Comparison
import Verdict.Proofs.Evaluation.Literal
import Verdict.Proofs.Evaluation.Resolution
import Verdict.Proofs.Validation.Expressiveness
import Verdict.Proofs.Archive.EntryNames
import Verdict.Proofs.FileTree.Standing
import Verdict.Proofs.FileTree.Paving
import Verdict.Proofs.FileTree.Sorted
import Verdict.Proofs.Archive.Order
import Verdict.Proofs.Archive.Traces
import Verdict.Proofs.Build.Guards
import Verdict.Proofs.Json.Canonical
import Verdict.Proofs.Closure.BreadthFirst
import Verdict.Proofs.Archive.Insertion
import Verdict.Proofs.Compilation.Dependencies
import Verdict.Proofs.Evaluation.Challenge
import Verdict.Proofs.Closure.Termination
import Verdict.Proofs.Payload.Regrouping
import Verdict.Proofs.Payload.Scalar
