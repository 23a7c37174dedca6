import SourceJar.Fault
import SourceJar.Text.Quoted

/-!
Why a job or a run fails.

`Failure` is the cause for which an archive, a batch or a whole run cannot go on; `UnitFailure` the
cause for which one class cannot be turned into source text, which never ends an archive's job. Each
cause has a message; a failure also has the wording that is shown to a user, and some have advice.
-/

namespace SourceJar

/-- The backends that turn a class into source text. -/
inductive BackendKind where
  | skeleton
  | stream
  | tempfile
  deriving DecidableEq, Repr

def BackendKind.name : BackendKind → String
  | .skeleton => "skeleton"
  | .stream => "stream"
  | .tempfile => "tempfile"

/-- What is wrong with an archive. -/
inductive ArchiveFault where
  | endRecordMissing
  | endRecordCommentCut
  | directoryOffset
  | directoryMissing
  | locatorOffset
  | manyDisks
  | wideRecordMissing
  | wideRecordShort
  | wideRecordLong
  | wideRecordDisk
  | wideRecordLength
  | wideRecordEntries
  | localHeader
  | duplicateName (name : String)
  | entryNotFound
  | other (message : String)
  deriving DecidableEq, Repr

def ArchiveFault.message : ArchiveFault → String
  | .endRecordMissing => "invalid Zip archive: Could not find EOCD"
  | .endRecordCommentCut => "invalid Zip archive: EOCD comment exceeds file boundary"
  | .directoryOffset => "invalid Zip archive: Invalid CDFH offset in EOCD"
  | .directoryMissing => "invalid Zip archive: No CDFH found"
  | .locatorOffset => "invalid Zip archive: Invalid EOCD64 Locator CD offset"
  | .manyDisks => "invalid Zip archive: Multi-disk ZIP files are not supported"
  | .wideRecordMissing => "invalid Zip archive: Could not find EOCD64"
  | .wideRecordShort => "invalid Zip archive: Low EOCD64 record size"
  | .wideRecordLong => "invalid Zip archive: EOCD64 extends beyond EOCD64 locator"
  | .wideRecordDisk => "invalid Zip archive: Invalid EOCD64: inconsistency with Locator data"
  | .wideRecordLength => "invalid Zip archive: Invalid EOCD64: inconsistent length"
  | .wideRecordEntries => "invalid Zip archive: Invalid EOCD64: inconsistent number of files"
  | .localHeader => "invalid Zip archive: Invalid local file header"
  | .duplicateName name => "invalid Zip archive: Duplicate filename: " ++ name
  | .entryNotFound => "specified file not found in archive"
  | .other message => "invalid Zip archive: " ++ message

/-- What is wrong with the settings or the file they come from. -/
inductive SettingsFault where
  | notFound (path : String)
  | unreadable (path : String) (cause : IoFault)
  | malformed (path : String)
  | notRepresentable
  | unwritable (path : String) (cause : IoFault)
  | noExtensions
  | emptySuffix
  | suffixSeparator (suffix : String)
  | noJobs
  | commandMissing (backend : BackendKind)
  | destinationIsFile (path : String)
  | commandEmpty
  | other (message : String)
  deriving DecidableEq, Repr

def SettingsFault.message : SettingsFault → String
  | .notFound path => "Configuration file not found: " ++ path
  | .unreadable path cause => s!"Failed to read config file {path}: {cause.message}"
  | .malformed path => "Failed to parse config file " ++ path
  | .notRepresentable => "Failed to serialize config: out-of-range value for u64 type"
  | .unwritable path cause => s!"Failed to write config file {path}: {cause.message}"
  | .noExtensions => "At least one archive extension must be specified"
  | .emptySuffix => "Output suffix must not be empty"
  | .suffixSeparator suffix => "Output suffix must not contain path separators: " ++ suffix
  | .noJobs => "Number of jobs must be greater than 0"
  | .commandMissing backend => s!"The {backend.name} backend requires decompiler.command to be set"
  | .destinationIsFile path => "Destination is a file, not a directory: " ++ path
  | .commandEmpty => "Decompiler command is empty"
  | .other message => message

/-- What is wrong with a backend. -/
inductive BackendFault where
  | commandMissing (backend : BackendKind)
  | other (message : String)
  deriving DecidableEq, Repr

def BackendFault.message : BackendFault → String
  | .commandMissing backend =>
    s!"the {backend.name} backend needs an external command (decompiler.command or --command)"
  | .other message => message

/-- The causes for which a job or a run fails. -/
inductive Failure where
  | io (cause : IoFault)
  | archive (cause : ArchiveFault)
  | emptyArchive (archive : String)
  | unsupportedArchive (path : String)
  | outputConflict (output firstSource : String)
  | invalidPath (path : String)
  | noArchivesFound (extensions : List String)
  | settings (cause : SettingsFault)
  | backend (cause : BackendFault)
  | cancelled
  deriving DecidableEq, Repr

namespace Failure

def message : Failure → String
  | .io cause => "IO operation failed: " ++ cause.message
  | .archive cause => "Archive operation failed: " ++ cause.message
  | .emptyArchive name => "Archive contains no entries: " ++ name
  | .unsupportedArchive path => "Unsupported archive type: " ++ path
  | .outputConflict output firstSource => s!"{output} is already produced by {firstSource}"
  | .invalidPath path => "Path validation failed: " ++ path
  | .noArchivesFound extensions =>
    "No archives found with extensions: " ++ Text.quotedList extensions
  | .settings cause => "Configuration error: " ++ cause.message
  | .backend cause => "Decompiler backend error: " ++ cause.message
  | .cancelled => "Operation was cancelled by user"

/-- The wording for the person who runs the program. -/
def userMessage : Failure → String
  | .emptyArchive name => s!"Archive '{name}' is empty, nothing to decompile"
  | .unsupportedArchive path => "Not a supported archive: " ++ path
  | .outputConflict output firstSource =>
    s!"Output {output} would overwrite the one from {firstSource}"
  | .invalidPath path => "Invalid file path: " ++ path
  | .noArchivesFound extensions =>
    "No archives found to decompile. Searched for: " ++ ", ".intercalate extensions
  | failure => failure.message

/-- What the person who runs the program could do about it. -/
def suggestion? : Failure → Option String
  | .archive _ =>
    some "Check that the file is a valid jar/zip archive and is not truncated."
  | .unsupportedArchive _ =>
    some ("Only archives with the configured extensions are processed (default: jar). " ++
      "Adjust `output.archive_extensions` in the configuration file.")
  | .noArchivesFound _ =>
    some ("Pass jar files or directories containing them. " ++
      "Generated *-sources archives are skipped.")
  | .settings _ =>
    some "Check your configuration file syntax and ensure all required fields are present."
  | .backend _ =>
    some ("Verify the decompiler command with --command, " ++
      "or switch to the built-in backend with --backend skeleton.")
  | .outputConflict .. =>
    some ("Archives with the same file name need separate runs " ++
      "with different --destination directories.")
  | .invalidPath _ =>
    some "Ensure the path exists and you have the necessary read/write permissions."
  | .io _ => none
  | .emptyArchive _ => none
  | .cancelled => none

end Failure

/-- Why one class cannot be turned into source text. -/
inductive UnitFailure where
  | refused (unit reason : String)
  | io (unit : String) (cause : IoFault)
  | backend (unit message : String)
  deriving DecidableEq, Repr

namespace UnitFailure

def unit : UnitFailure → String
  | .refused unit _ => unit
  | .io unit _ => unit
  | .backend unit _ => unit

def message : UnitFailure → String
  | .refused unit reason => s!"cannot decompile {unit}: {reason}"
  | .io unit cause => s!"I/O failure while decompiling {unit}: {cause.message}"
  | .backend unit message => s!"decompiler backend failed on {unit}: {message}"

end UnitFailure

end SourceJar
