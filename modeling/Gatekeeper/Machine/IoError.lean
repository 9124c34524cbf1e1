set_option autoImplicit false

/-!
# Errors of the operating system

The causes for which an operation on files or processes fails, with their wording.
-/

namespace Gatekeeper.Machine

/-- Why an operation on files or processes failed. -/
inductive IoError
  | noEntry
  | unknownFormat
  | denied
  | alreadyExists
  | notDirectory
  | isDirectory
  | nameTooLong
  | tooManyLinks
  /-- A file that should be text is not UTF-8. -/
  | notText
  /-- A path holds the NUL character. -/
  | nulInPath
  /-- A program name or an argument holds the NUL character. -/
  | nulInArgument
  deriving DecidableEq, Repr

/-- The wording of an error. -/
def IoError.message : IoError → String
  | noEntry => "No such file or directory (os error 2)"
  | unknownFormat => "Exec format error (os error 8)"
  | denied => "Permission denied (os error 13)"
  | alreadyExists => "File exists (os error 17)"
  | notDirectory => "Not a directory (os error 20)"
  | isDirectory => "Is a directory (os error 21)"
  | nameTooLong => "File name too long (os error 36)"
  | tooManyLinks => "Too many levels of symbolic links (os error 40)"
  | notText => "stream did not contain valid UTF-8"
  | nulInPath => "file name contained an unexpected NUL byte"
  | nulInArgument => "nul byte found in provided data"

end Gatekeeper.Machine
