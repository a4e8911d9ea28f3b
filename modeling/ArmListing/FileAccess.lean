/-!
# ArmListing.FileAccess

What a run needs **of the file system**: reading a file as a whole, and making a
file anew.

The operations are the fields of a structure over a monad, so that a run is
written once and works on a real disk as well as on a `Directory` value, about
which laws can be stated.
-/

namespace ArmListing

/-- Why a file cannot be read. -/
inductive FileError
  | notFound
  | isDirectory
  | notDirectory
  | nameTooLong
  /-- A name holds a character that ends it. -/
  | nulInName
  /-- Any other reason, in the words of the system. -/
  | other (reason : String)
  deriving DecidableEq, Repr

namespace FileError

/-- The reason in the words of the system, with its number. -/
def message : FileError → String
  | notFound => "No such file or directory (os error 2)"
  | isDirectory => "Is a directory (os error 21)"
  | notDirectory => "Not a directory (os error 20)"
  | nameTooLong => "File name too long (os error 36)"
  | nulInName => "file name contained an unexpected NUL byte"
  | other reason => reason

end FileError

/-- A file system, as far as a run needs it. -/
structure FileAccess (m : Type → Type) where
  /-- The contents of the file at a path. -/
  read : String → m (Except FileError ByteArray)
  /-- Makes an empty file at a path, or empties the one that is there. The answer puts bytes into
  it, or is `none` if the file cannot be made. -/
  create : String → m (Option (ByteArray → m Unit))

end ArmListing
