import SourceJar.Application
import SourceJar.Archive.Bits
import SourceJar.Archive.Builder
import SourceJar.Archive.Bzip2
import SourceJar.Archive.Bzip2.Gaps
import SourceJar.Archive.CodePage
import SourceJar.Archive.Crc32
import SourceJar.Archive.Crc64
import SourceJar.Archive.Draft
import SourceJar.Archive.EntryName
import SourceJar.Archive.Inflate
import SourceJar.Archive.Inflate64
import SourceJar.Archive.LittleEndian
import SourceJar.Archive.Lzma
import SourceJar.Archive.Lzma.Basic
import SourceJar.Archive.Lzma.Chunks
import SourceJar.Archive.Sha256
import SourceJar.Archive.Tree
import SourceJar.Archive.Unpacking
import SourceJar.Archive.Xxh64
import SourceJar.Archive.Xz
import SourceJar.Archive.Xz.Filter
import SourceJar.Archive.Zip.Content
import SourceJar.Archive.Zip.Directory
import SourceJar.Archive.Zip.Entry
import SourceJar.Archive.Zip.Field
import SourceJar.Archive.Zip.Writer
import SourceJar.Archive.Zstd
import SourceJar.Archive.Zstd.Entropy
import SourceJar.Archive.Zstd.Literals
import SourceJar.Archive.Zstd.Sequence
import SourceJar.Backend.Basic
import SourceJar.Backend.Command
import SourceJar.Batch.Outcome
import SourceJar.Batch.Progress
import SourceJar.Batch.Report
import SourceJar.Batch.Run
import SourceJar.ClassFile.Basic
import SourceJar.ClassFile.Constant
import SourceJar.ClassFile.Descriptor
import SourceJar.ClassFile.Error
import SourceJar.ClassFile.Name
import SourceJar.ClassFile.Reader
import SourceJar.CommandLine
import SourceJar.Console.Basic
import SourceJar.Console.Duration
import SourceJar.Console.ProgressBar
import SourceJar.Console.Report
import SourceJar.Console.Timestamp
import SourceJar.Decimal.Shortest
import SourceJar.Discovery
import SourceJar.Failure
import SourceJar.Fault
import SourceJar.FileSystem.Basic
import SourceJar.FileSystem.Operations
import SourceJar.FileSystem.Walk
import SourceJar.Java.Literal
import SourceJar.Java.Skeleton
import SourceJar.Json
import SourceJar.Main
import SourceJar.Node
import SourceJar.Path
import SourceJar.Program
import SourceJar.Settings.Basic
import SourceJar.Settings.File
import SourceJar.StopFlag
import SourceJar.Text.Blank
import SourceJar.Text.Printable
import SourceJar.Text.Quoted
import SourceJar.Text.Split
import SourceJar.Text.Utf8
import SourceJar.Toml.Reader
import SourceJar.Toml.Scalar
import SourceJar.Toml.Value
import SourceJar.Toml.Writer
import SourceJar.Tool.Base64
import SourceJar.Tool.Basic
import SourceJar.Tool.Cat
import SourceJar.Tool.Count
import SourceJar.Tool.Dump
import SourceJar.Tool.Echo
import SourceJar.Tool.Escape
import SourceJar.Tool.Floating
import SourceJar.Tool.Format
import SourceJar.Tool.Head
import SourceJar.Tool.Options
import SourceJar.Tool.PathName
import SourceJar.Tool.Printf
import SourceJar.Tool.Quantity
import SourceJar.Tool.Quoting
import SourceJar.Tool.Remove
import SourceJar.Tool.Shell.Arithmetic
import SourceJar.Tool.Shell.Bucket
import SourceJar.Tool.Shell.Builtin
import SourceJar.Tool.Shell.Builtin.Alias
import SourceJar.Tool.Shell.Builtin.Basic
import SourceJar.Tool.Shell.Builtin.Directory
import SourceJar.Tool.Shell.Builtin.Getopts
import SourceJar.Tool.Shell.Builtin.Input
import SourceJar.Tool.Shell.Builtin.Limit
import SourceJar.Tool.Shell.Builtin.Process
import SourceJar.Tool.Shell.Expansion
import SourceJar.Tool.Shell.Grammar
import SourceJar.Tool.Shell.Job
import SourceJar.Tool.Shell.Lookup
import SourceJar.Tool.Shell.Pattern
import SourceJar.Tool.Shell.Print
import SourceJar.Tool.Shell.Reader
import SourceJar.Tool.Shell.Run
import SourceJar.Tool.Shell.Signal
import SourceJar.Tool.Shell.Start
import SourceJar.Tool.Shell.State
import SourceJar.Tool.Shell.Test
import SourceJar.Tool.Shell.Tree
import SourceJar.Tool.System
import SourceJar.Tool.Translate
import SourceJar.Traversal
import SourceJar.Proofs.ClassReading
import SourceJar.Proofs.Conversion
import SourceJar.Proofs.Stopping
import SourceJar.Proofs.Following
import SourceJar.Proofs.Decoding
import SourceJar.Proofs.PathNames
import SourceJar.Proofs.Changes
import SourceJar.Proofs.Backends
import SourceJar.Proofs.Jobs
import SourceJar.Proofs.UnitCounts
import SourceJar.Proofs.Outputs
import SourceJar.Proofs.SkeletonJobs
import SourceJar.Proofs.Independence
import SourceJar.Proofs.Truncation
import SourceJar.Proofs.DirectoryTrees
import SourceJar.Proofs.Rerun
import SourceJar.Proofs.Cancelling
import SourceJar.Proofs.StringLiterals
import SourceJar.Proofs.DraftCalls
import SourceJar.Proofs.SafeNames
import SourceJar.Proofs.Answering
import SourceJar.Proofs.ExitStatus
import SourceJar.Proofs.HiddenMembers
import SourceJar.Proofs.HeaderComments
import SourceJar.Proofs.RepeatedCalls
import SourceJar.Proofs.InsidePaths
import SourceJar.Proofs.IntegralConstants
import SourceJar.Proofs.DryRuns
import SourceJar.Proofs.Fractions
import SourceJar.Proofs.Discovering
import SourceJar.Proofs.TemporaryCopies
import SourceJar.Proofs.CheckedSkeleton
import SourceJar.Proofs.TypeSpellings
import SourceJar.Proofs.OutputNames
import SourceJar.Proofs.CommandSettings
