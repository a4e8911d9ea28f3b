import ArmListing.FileAccess

/-!
# ArmListing.Directory

A **directory with files**, as a value.

Places are found as Linux does it. A path is followed name by name, each in a
directory that must be there; `.` stays and `..` goes up, also above the
directory itself, where nothing is known but the directories on the way up. A
slash at the end of a path asks for a directory.

Reading and creating are operations on the state (`Directory.access`). Both go
through `Directory.find`, so two paths to one place name the same file.
-/

namespace ArmListing

/-- A place below the directory: the names on the way to it, the last one first. Names `..` lead
above the directory, and a slash stands for the root. -/
abbrev Place := List String

namespace Place

/-- The name of the root in a place. -/
def root : String := "/"

/-- One level up. -/
def parent : Place → Place
  | [] => [".."]
  | name :: rest =>
    if name = root then [root]
    else if name = ".." then name :: name :: rest
    else rest

/-- The place as a path. -/
def path (p : Place) : String := "/".intercalate p.reverse

/-- Whether the place lies below the directory. -/
def isBelow (p : Place) : Bool := p.all fun name => name != ".." && name != root

end Place

/-- A path, taken apart. -/
structure Path where
  /-- Whether the path starts at the root. -/
  absolute : Bool
  /-- The names on the way. -/
  names : List String
  /-- Whether a slash stands at the end. -/
  slash : Bool
  deriving DecidableEq, Repr

namespace Path

/-- The pieces of a text between slashes. -/
def pieces : List Char → List (List Char)
  | [] => [[]]
  | c :: rest =>
    if c = '/' then [] :: pieces rest
    else
      match pieces rest with
      | piece :: more => (c :: piece) :: more
      | [] => [[c]]

/-- Takes a path apart. Slashes side by side count as one. -/
def ofString (text : String) : Path where
  absolute := text.toList.head? == some '/'
  names := ((pieces text.toList).filter (!·.isEmpty)).map String.ofList
  slash := text.toList.getLast? == some '/'

end Path

/-- Directories and files with their contents. -/
structure Directory where
  directories : List Place := []
  files : List (Place × ByteArray) := []

namespace Directory

/-- The contents of the file at a place. -/
def file? (d : Directory) (p : Place) : Option ByteArray := d.files.lookup p

/-- Whether there is a directory at a place. -/
def isDirectory (d : Directory) (p : Place) : Bool :=
  p == [Place.root] || p.all (· == "..") || d.directories.contains p

/-- The greatest number of bytes of a name. -/
def maxName : Nat := 255

/-- One name further, from a place where there is a directory or a file. -/
def follow (d : Directory) (p : Place) (name : String) : Except FileError Place :=
  if d.isDirectory p then
    if name = "." then .ok p
    else if name = ".." then .ok p.parent
    else if maxName < name.utf8ByteSize then .error .nameTooLong
    else .ok (name :: p)
  else if (d.file? p).isSome then .error .notDirectory
  else .error .notFound

/-- The place that a path leads to. All of it but the last name is there. -/
def find (d : Directory) (text : String) : Except FileError Place :=
  if text.toList.contains '\x00' then .error .nulInName
  else if text.isEmpty then .error .notFound
  else
    let path := Path.ofString text
    path.names.foldlM d.follow (if path.absolute then [Place.root] else [])

/-- The contents of the file that a path leads to. -/
def read (d : Directory) (text : String) : Except FileError ByteArray := do
  let place ← d.find text
  if d.isDirectory place then throw .isDirectory
  match d.file? place with
  | none => throw .notFound
  | some contents => if (Path.ofString text).slash then throw .notDirectory else return contents

/-- The place where a path makes a file. -/
def placeOfNew? (d : Directory) (text : String) : Option Place := do
  let place ← (d.find text).toOption
  guard (!d.isDirectory place && !(Path.ofString text).slash)
  return place

/-- `d` with the given contents at a place. -/
def put (d : Directory) (p : Place) (contents : ByteArray) : Directory :=
  { d with files := (p, contents) :: d.files.filter (·.1 != p) }

/-- The files below `d` that are not there in `before`, or with other contents. -/
def changesSince (d before : Directory) : List (Place × ByteArray) :=
  d.files.filter fun (p, contents) => p.isBelow && before.file? p != some contents

/-- Reading and creating as operations on the state. -/
def access : FileAccess (StateM Directory) where
  read text := return (← get).read text
  create text := do
    match (← get).placeOfNew? text with
    | none => return none
    | some place =>
      modify (·.put place ByteArray.empty)
      return some fun contents => modify (·.put place contents)

/-- The places on the way to a place, and the place itself. -/
def upwards : Place → List Place
  | [] => []
  | name :: rest => (name :: rest) :: upwards rest

/-- A directory with the given entries, and with all directories that these lie in. -/
def ofEntries (directories : List String) (files : List (String × ByteArray)) : Directory where
  directories :=
    directories.flatMap (fun text => upwards (Path.ofString text).names.reverse) ++
      files.flatMap (fun (text, _) => upwards (Path.ofString text).names.reverse.tail)
  files := files.map fun (text, contents) => ((Path.ofString text).names.reverse, contents)

end Directory

end ArmListing
