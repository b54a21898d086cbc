/-
How the reading or writing of a file can fail.
-/

namespace TapeAsm

/-- Why a file could not be read or written. -/
inductive FileError where
  /-- There is nothing at the path. -/
  | notFound
  /-- The path leads through something that is not a directory. -/
  | notDirectory
  /-- The path is that of a directory. -/
  | isDirectory
  /-- A name on the path, or the path itself, has too many bytes. -/
  | nameTooLong
  /-- The bytes of the file are not text. -/
  | notText
  /-- Anything else, in the words of the system. -/
  | other (text : String)
deriving DecidableEq

/-- The wording of a failure. -/
def FileError.message : FileError → String
  | .notFound => "No such file or directory (os error 2)"
  | .notDirectory => "Not a directory (os error 20)"
  | .isDirectory => "Is a directory (os error 21)"
  | .nameTooLong => "File name too long (os error 36)"
  | .notText => "stream did not contain valid UTF-8"
  | .other text => text

end TapeAsm
