import CodecCompiler.Files.Disk
import CodecCompiler.Main
import CodecCompiler.Proofs.Entries
import CodecCompiler.Proofs.Tree
import CodecCompiler.Proofs.Shape
import CodecCompiler.Proofs.Discovery
import CodecCompiler.Proofs.Runs
import CodecCompiler.Proofs.Compilation
import CodecCompiler.Proofs.References
import CodecCompiler.Proofs.Schemas
import CodecCompiler.Proofs.Pointer
import CodecCompiler.Proofs.Steps
import CodecCompiler.Proofs.Growth
import CodecCompiler.Proofs.Failure
import CodecCompiler.Proofs.Merging
import CodecCompiler.Proofs.Meaning
import CodecCompiler.Proofs.Acceptance
import CodecCompiler.Proofs.Inlining
import CodecCompiler.Proofs.Expansion
import CodecCompiler.Proofs.Commutation
import CodecCompiler.Proofs.Comparison
import CodecCompiler.Proofs.Flags
import CodecCompiler.Proofs.Erasure
import CodecCompiler.Proofs.Annotations
import CodecCompiler.Proofs.Outcomes
import CodecCompiler.Proofs.Dangling
import CodecCompiler.Proofs.Dump
import CodecCompiler.Proofs.Roundtrip
import CodecCompiler.Proofs.Files
import CodecCompiler.Proofs.Lossless
import CodecCompiler.Proofs.Export
import CodecCompiler.Proofs.Meetings
import CodecCompiler.Proofs.Members
import CodecCompiler.Proofs.Product
import CodecCompiler.Proofs.Regrouping
import CodecCompiler.Proofs.Branches
import CodecCompiler.Proofs.Traversal
import CodecCompiler.Proofs.Unhandled
import CodecCompiler.Proofs.Readback
import CodecCompiler.Proofs.Bound
import CodecCompiler.Proofs.Precedence
import CodecCompiler.Proofs.Union
import CodecCompiler.Proofs.Display
import CodecCompiler.Proofs.Columns
import CodecCompiler.Proofs.Printing
import CodecCompiler.Proofs.Listing
import CodecCompiler.Proofs.Ensures
import CodecCompiler.Proofs.Spelling
import CodecCompiler.Proofs.Cursors
import CodecCompiler.Proofs.Scanning
import CodecCompiler.Proofs.Graphs
import CodecCompiler.Proofs.Loading
