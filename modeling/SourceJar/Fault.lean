/-!
Why the file system turns down a request, and what is said of it.

An `Errno` is a cause the operating system gives; its text carries the number. Other faults of
reading and writing have texts of their own.
-/

namespace SourceJar

/-- The causes that file system calls report. -/
inductive Errno where
  | noEntry
  | badDescriptor
  | accessDenied
  | alreadyExists
  | notDirectory
  | isDirectory
  | invalidArgument
  | noSpace
  | nameTooLong
  | notEmpty
  | tooManyLinks
  deriving DecidableEq, Repr

namespace Errno

def code : Errno → Nat
  | .noEntry => 2
  | .badDescriptor => 9
  | .accessDenied => 13
  | .alreadyExists => 17
  | .notDirectory => 20
  | .isDirectory => 21
  | .invalidArgument => 22
  | .noSpace => 28
  | .nameTooLong => 36
  | .notEmpty => 39
  | .tooManyLinks => 40

def text : Errno → String
  | .noEntry => "No such file or directory"
  | .badDescriptor => "Bad file descriptor"
  | .accessDenied => "Permission denied"
  | .alreadyExists => "File exists"
  | .notDirectory => "Not a directory"
  | .isDirectory => "Is a directory"
  | .invalidArgument => "Invalid argument"
  | .noSpace => "No space left on device"
  | .nameTooLong => "File name too long"
  | .notEmpty => "Directory not empty"
  | .tooManyLinks => "Too many levels of symbolic links"

end Errno

/-- A fault of reading or writing. -/
inductive IoFault where
  | os (errno : Errno)
  /-- A path with a NUL byte names nothing. -/
  | nulInPath
  /-- An argument with a NUL cannot be handed to a program. -/
  | nulInArgument
  /-- Text was asked for and the bytes are none. -/
  | notText
  /-- The input ended inside a record. -/
  | endOfInput
  /-- The content of a directory was asked for. -/
  | directoryContent (path : String)
  /-- An archive entry whose content cannot be restored. -/
  | badEntry (reason : String)
  | other (message : String)
  deriving DecidableEq, Repr

def IoFault.message : IoFault → String
  | .os errno => s!"{errno.text} (os error {errno.code})"
  | .nulInPath => "file name contained an unexpected NUL byte"
  | .nulInArgument => "nul byte found in provided data"
  | .notText => "stream did not contain valid UTF-8"
  | .endOfInput => "failed to fill whole buffer"
  | .directoryContent path => path ++ " is a directory"
  | .badEntry reason => reason
  | .other message => message

end SourceJar
