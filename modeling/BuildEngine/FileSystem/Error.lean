import BuildEngine.Path.Basic
import BuildEngine.Text.Utf8

/-!
# File errors

Why an operation on files failed.
-/

namespace BuildEngine

/-- The conditions that the system reports. -/
inductive SystemError where
  | notFound
  | permissionDenied
  | alreadyExists
  | notADirectory
  | isADirectory
  | invalidArgument
  | directoryNotEmpty
deriving DecidableEq, Repr

/-- The system's number for a condition. -/
def SystemError.code : SystemError → Nat
  | notFound => 2
  | permissionDenied => 13
  | alreadyExists => 17
  | notADirectory => 20
  | isADirectory => 21
  | invalidArgument => 22
  | directoryNotEmpty => 39

/-- The system's words for a condition. -/
def SystemError.words : SystemError → String
  | notFound => "No such file or directory"
  | permissionDenied => "Permission denied"
  | alreadyExists => "File exists"
  | notADirectory => "Not a directory"
  | isADirectory => "Is a directory"
  | invalidArgument => "Invalid argument"
  | directoryNotEmpty => "Directory not empty"

/-- Why an operation on a file failed. -/
inductive FileError where
  /-- No such file is stored. -/
  | missing (path : Path)
  /-- The operation was made to fail. -/
  | injected
  /-- The contents are no text. -/
  | notText (reason : Text.Utf8Error)
  /-- The contents are no text, wherever that shows. -/
  | noText
  /-- What should be copied is no file. -/
  | notAFile
  /-- The system refused. -/
  | system (reason : SystemError)
deriving DecidableEq, Repr

/-- The message of a file error. -/
def FileError.message : FileError → String
  | missing path => "'" ++ path.text ++ "' does not exist"
  | injected => "injected fault"
  | notText reason => reason.message
  | noText => "stream did not contain valid UTF-8"
  | notAFile => "the source path is neither a regular file nor a symlink to a regular file"
  | system reason => reason.words ++ " (os error " ++ toString reason.code ++ ")"

end BuildEngine
