/-!
# Faults of files

Why a file cannot be read, written, made or moved.
-/

set_option autoImplicit false

namespace Stepwise

/-- Why something could not be done with a file. -/
inductive FileFault where
  /-- There is no such file. -/
  | missing
  /-- Something on the way is no directory. -/
  | notDirectory
  | isDirectory
  /-- What is to be made is there already. -/
  | present
  /-- A directory is in use, having been named by points. -/
  | busy
  /-- A name or the whole path has too many bytes. -/
  | nameTooLong
  /-- The path holds the character that ends texts in memory. -/
  | nulInName
  /-- The content is no text. -/
  | notText
  | other (message : String)
  deriving Repr, DecidableEq

/-- How a fault is reported. -/
def FileFault.message : FileFault → String
  | .missing => "No such file or directory (os error 2)"
  | .notDirectory => "Not a directory (os error 20)"
  | .isDirectory => "Is a directory (os error 21)"
  | .present => "File exists (os error 17)"
  | .busy => "Device or resource busy (os error 16)"
  | .nameTooLong => "File name too long (os error 36)"
  | .nulInName => "file name contained an unexpected NUL byte"
  | .notText => "stream did not contain valid UTF-8"
  | .other message => message

/-- Whether the fault is that the path leads to nothing. -/
def FileFault.absent : FileFault → Bool
  | .missing | .notDirectory | .nameTooLong | .nulInName => true
  | _ => false

end Stepwise
