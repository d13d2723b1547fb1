/-!
# Input and output failures

Why a read, a write or a file operation did not happen.
-/

namespace RecordLayout

inductive IoFault where
  | notFound
  | notDirectory
  | isDirectory
  | nameTooLong
  | nulInName
  | invalidUtf8
  | inputFailed
  | inputPending
  | outputClosed
  | flushFailed
  | writeZero
  deriving DecidableEq, Repr, Inhabited

/-- The family a failure belongs to. -/
def IoFault.kind : IoFault → String
  | .notFound => "NotFound"
  | .notDirectory => "NotADirectory"
  | .isDirectory => "IsADirectory"
  | .nameTooLong => "InvalidFilename"
  | .nulInName => "InvalidInput"
  | .invalidUtf8 => "InvalidData"
  | .inputFailed => "ConnectionReset"
  | .inputPending => "WouldBlock"
  | .outputClosed => "BrokenPipe"
  | .flushFailed => "BrokenPipe"
  | .writeZero => "WriteZero"

def IoFault.message : IoFault → String
  | .notFound => "No such file or directory (os error 2)"
  | .notDirectory => "Not a directory (os error 20)"
  | .isDirectory => "Is a directory (os error 21)"
  | .nameTooLong => "File name too long (os error 36)"
  | .nulInName => "file name contained an unexpected NUL byte"
  | .invalidUtf8 => "stream did not contain valid UTF-8"
  | .inputFailed => "input failed"
  | .inputPending => "Resource temporarily unavailable (os error 11)"
  | .outputClosed => "output closed"
  | .flushFailed => "flush failed"
  | .writeZero => "failed to write whole buffer"

end RecordLayout
