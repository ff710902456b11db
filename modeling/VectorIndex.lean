import VectorIndex.Build.Layout
import VectorIndex.Build.Pipeline
import VectorIndex.Build.Pool
import VectorIndex.Build.Schedule
import VectorIndex.Build.Shard
import VectorIndex.Build.State
import VectorIndex.Bytes.Basic
import VectorIndex.Bytes.Hex
import VectorIndex.Bytes.Packed
import VectorIndex.Clustering.Lloyd
import VectorIndex.Clustering.Metric
import VectorIndex.Clustering.Seeding
import VectorIndex.Codebook.Basic
import VectorIndex.Codebook.File
import VectorIndex.Codebook.Quantizer
import VectorIndex.Codebook.Training
import VectorIndex.CommandLine.Flag
import VectorIndex.CommandLine.Request
import VectorIndex.CommandLine.Scan
import VectorIndex.CommandLine.Session
import VectorIndex.Corpus.Mapping
import VectorIndex.Corpus.Partition
import VectorIndex.Corpus.Record
import VectorIndex.Decimal.Layout
import VectorIndex.Decimal.Reading
import VectorIndex.Decimal.Shortest
import VectorIndex.Digest.Fingerprint
import VectorIndex.Digest.Sha256
import VectorIndex.Document.External
import VectorIndex.Document.Id
import VectorIndex.Encoder.Basic
import VectorIndex.Encoder.Fixed
import VectorIndex.Encoder.Model
import VectorIndex.Error
import VectorIndex.Json.Basic
import VectorIndex.Json.Decode
import VectorIndex.Json.Printer
import VectorIndex.Json.Reader
import VectorIndex.Main
import VectorIndex.Numeric.Binary32
import VectorIndex.Numeric.Binary64
import VectorIndex.Postings.Basic
import VectorIndex.Postings.Merge
import VectorIndex.Postings.Metadata
import VectorIndex.Postings.Segment
import VectorIndex.Proofs.Build.Acceptance
import VectorIndex.Proofs.Build.Alignment
import VectorIndex.Proofs.Build.AllOrNothing
import VectorIndex.Proofs.Build.Alone
import VectorIndex.Proofs.Build.Barrier
import VectorIndex.Proofs.Build.Completion
import VectorIndex.Proofs.Build.Contents
import VectorIndex.Proofs.Build.Course
import VectorIndex.Proofs.Build.Determinism
import VectorIndex.Proofs.Build.Documents
import VectorIndex.Proofs.Build.Errors
import VectorIndex.Proofs.Build.Inventory
import VectorIndex.Proofs.Build.Leftovers
import VectorIndex.Proofs.Build.Lifecycle
import VectorIndex.Proofs.Build.Listing
import VectorIndex.Proofs.Build.Output
import VectorIndex.Proofs.Build.Pipeline
import VectorIndex.Proofs.Build.Reopening
import VectorIndex.Proofs.Build.Resumption
import VectorIndex.Proofs.Build.Retention
import VectorIndex.Proofs.Build.Retraining
import VectorIndex.Proofs.Build.Reuse
import VectorIndex.Proofs.Build.Schedule
import VectorIndex.Proofs.Build.Sequential
import VectorIndex.Proofs.Build.Shard
import VectorIndex.Proofs.Build.Stages
import VectorIndex.Proofs.Build.Trace
import VectorIndex.Proofs.Bytes.Packed
import VectorIndex.Proofs.Bytes.Shortest
import VectorIndex.Proofs.Clustering.Bounds
import VectorIndex.Proofs.Clustering.Lengths
import VectorIndex.Proofs.Clustering.Nearest
import VectorIndex.Proofs.Clustering.Outcome
import VectorIndex.Proofs.Clustering.Reseeding
import VectorIndex.Proofs.Clustering.Seeding
import VectorIndex.Proofs.Codebook.Codewords
import VectorIndex.Proofs.Codebook.File
import VectorIndex.Proofs.Codebook.Resaving
import VectorIndex.Proofs.Codebook.RoundTrip
import VectorIndex.Proofs.Codebook.Scoring
import VectorIndex.Proofs.Codebook.Shape
import VectorIndex.Proofs.Codebook.Table
import VectorIndex.Proofs.Codebook.Trainability
import VectorIndex.Proofs.Codebook.Training
import VectorIndex.Proofs.Codebook.WellFormed
import VectorIndex.Proofs.Corpus.Identity
import VectorIndex.Proofs.Corpus.Lines
import VectorIndex.Proofs.Corpus.Mapping
import VectorIndex.Proofs.Corpus.Partition
import VectorIndex.Proofs.Corpus.Stream
import VectorIndex.Proofs.Digest.Fingerprint
import VectorIndex.Proofs.Document.Tiling
import VectorIndex.Proofs.Json.Range
import VectorIndex.Proofs.Json.RoundTrip
import VectorIndex.Proofs.Json.Token
import VectorIndex.Proofs.Postings.Conduct
import VectorIndex.Proofs.Postings.Draft
import VectorIndex.Proofs.Postings.Format
import VectorIndex.Proofs.Postings.Ids
import VectorIndex.Proofs.Postings.Interruption
import VectorIndex.Proofs.Postings.Merge
import VectorIndex.Proofs.Postings.Metadata
import VectorIndex.Proofs.Postings.Names
import VectorIndex.Proofs.Postings.Order
import VectorIndex.Proofs.Postings.Publish
import VectorIndex.Proofs.Postings.Pushes
import VectorIndex.Proofs.Postings.Segment
import VectorIndex.Proofs.Result
import VectorIndex.Proofs.Search.Among
import VectorIndex.Proofs.Search.Answers
import VectorIndex.Proofs.Search.Bounds
import VectorIndex.Proofs.Search.External
import VectorIndex.Proofs.Search.Load
import VectorIndex.Proofs.Search.Mapping
import VectorIndex.Proofs.Search.Monotone
import VectorIndex.Proofs.Search.Probing
import VectorIndex.Proofs.Search.Ranking
import VectorIndex.Proofs.Search.Recovery
import VectorIndex.Proofs.Search.Watching
import VectorIndex.Proofs.Sequence.Chunks
import VectorIndex.Proofs.Store.Atomicity
import VectorIndex.Proofs.Store.Beside
import VectorIndex.Proofs.Store.Conduct
import VectorIndex.Proofs.Store.Crowd
import VectorIndex.Proofs.Store.Directories
import VectorIndex.Proofs.Store.Faults
import VectorIndex.Proofs.Store.Path
import VectorIndex.Proofs.Store.Program
import VectorIndex.Proofs.Store.Publishing
import VectorIndex.Proofs.Store.Readers
import VectorIndex.Proofs.Store.Sharing
import VectorIndex.Proofs.Store.Staging
import VectorIndex.Proofs.Store.Tree
import VectorIndex.Proofs.Store.Writers
import VectorIndex.Proofs.Text.Utf8
import VectorIndex.Random.KeyStream
import VectorIndex.Report.Summary
import VectorIndex.Report.Table
import VectorIndex.Search.Engine
import VectorIndex.Search.Hit
import VectorIndex.Search.Service
import VectorIndex.Sequence.Chunks
import VectorIndex.Settings.Basic
import VectorIndex.Settings.Fields
import VectorIndex.Settings.Storage
import VectorIndex.Settings.Variable
import VectorIndex.Store.Path
import VectorIndex.Store.Program
import VectorIndex.Store.Staging
import VectorIndex.Store.Tree
import VectorIndex.Text.Blank
import VectorIndex.Text.Calendar
import VectorIndex.Text.Lines
import VectorIndex.Text.Utf8
import VectorIndex.Text.Width
import VectorIndex.Toml.Basic
import VectorIndex.Toml.Moment
import VectorIndex.Toml.Printer
import VectorIndex.Toml.Reader
import VectorIndex.Vector.Basic
import VectorIndex.Vector.Contract
