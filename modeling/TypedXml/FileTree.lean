import TypedXml.Text.Utf8

/-!
# Files by their paths

A command reads one file, named by a path.  A path is followed name by name, from the root if it
begins with a slash and from the working directory otherwise, and the first name that leads no
further tells why there is nothing to read.
-/

set_option autoImplicit false

namespace TypedXml

/-- Why a path gives no text. -/
inductive FileFault where
  | missing
  | directory
  /-- The path goes on behind a file. -/
  | notDirectory
  | nameTooLong
  | notText
  | reported (message : String)
  deriving DecidableEq, Repr

/-- What a message says of a path without a text. -/
def FileFault.message : FileFault → String
  | .missing => "No such file or directory (os error 2)"
  | .directory => "Is a directory (os error 21)"
  | .notDirectory => "Not a directory (os error 20)"
  | .nameTooLong => "File name too long (os error 36)"
  | .notText => "stream did not contain valid UTF-8"
  | .reported message => message

/-- A file or a directory. -/
inductive FileTree where
  /-- A file with its octets. -/
  | file (contents : Octets)
  | directory (entries : List (String × FileTree))

/-- A place in a file tree: what is there, and the directories it lies in, innermost first. -/
structure Place where
  here : FileTree
  /-- The directories around it, the root last. -/
  above : List FileTree

/-- The names of a path, separated by slashes; a slash at the beginning or the end has an empty name
beside it. -/
def pathNames : List Char → List (List Char)
  | [] => [[]]
  | c :: rest =>
    if c == '/' then [] :: pathNames rest
    else match pathNames rest with
      | name :: names => (c :: name) :: names
      | [] => [[c]]

namespace Place

/-- The greatest number of octets in a name. -/
def longestName : Nat := 255

/-- The greatest number of octets in a path. -/
def longestPath : Nat := 4095

/-- The place of the root that a place lies under. -/
def root (place : Place) : Place :=
  ⟨place.above.getLast?.getD place.here, []⟩

/-- The directory around a place; the root is its own. -/
def parent (place : Place) : Place :=
  match place.above with
  | [] => place
  | here :: above => ⟨here, above⟩

/-- The octets of the file that names lead to from a place.  An empty name and `.` stay where they
are, `..` goes up. -/
def follow : Place → List (List Char) → Except FileFault Octets
  | ⟨.file contents, _⟩, [] => .ok contents
  | ⟨.directory _, _⟩, [] => .error .directory
  | ⟨.file _, _⟩, _ :: _ => .error .notDirectory
  | place@⟨.directory entries, above⟩, name :: rest =>
    if name == [] || name == ['.'] then follow place rest
    else if name == ['.', '.'] then follow place.parent rest
    else if Text.Utf8.size name > longestName then .error .nameTooLong
    else match entries.lookup (String.ofList name) with
      | some next => follow ⟨next, .directory entries :: above⟩ rest
      | none => .error .missing

/-- The octets of the file at a path, seen from a place. -/
def read (place : Place) (path : String) : Except FileFault Octets :=
  let names := pathNames path.toList
  if path.isEmpty then .error .missing
  else if path.utf8ByteSize > longestPath then .error .nameTooLong
  else if names.head? == some [] then place.root.follow names
  else place.follow names

end Place

end TypedXml
