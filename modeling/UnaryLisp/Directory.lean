import UnaryLisp.Text.Blank

/-!
# Reading from a working directory

A working directory holds files and empty folders. A path is followed one component after the
other, and may lead out of the directory, where nothing has a name.

## Main definitions

* `ReadFault`: why a path cannot be read.
* `Directory`: a working directory.
* `Directory.resolve`: where a path leads.
* `Directory.read`: the text of the file at a path.
-/

namespace UnaryLisp

/-- Why a path cannot be read. -/
inductive ReadFault where
  /-- There is nothing at the path. -/
  | notFound
  /-- The path goes on behind a file. -/
  | notDirectory
  /-- The path leads to a folder. -/
  | isDirectory
  /-- The path, or a component of it, is too long. -/
  | nameTooLong
  /-- Reading is not allowed. -/
  | permissionDenied
  /-- The path has a character that no path can have. -/
  | nulInName
  /-- The file holds no text. -/
  | invalidEncoding
deriving DecidableEq

/-- The message of a fault. -/
def ReadFault.message : ReadFault → String
  | notFound => "No such file or directory (os error 2)"
  | permissionDenied => "Permission denied (os error 13)"
  | notDirectory => "Not a directory (os error 20)"
  | isDirectory => "Is a directory (os error 21)"
  | nameTooLong => "File name too long (os error 36)"
  | nulInName => "file name contained an unexpected NUL byte"
  | invalidEncoding => "stream did not contain valid UTF-8"

/-- What a name in a working directory stands for. -/
inductive Entry where
  /-- A file with its bytes. -/
  | file (bytes : ByteArray)
  /-- An empty folder. -/
  | folder

/-- A working directory: its entries by name. -/
structure Directory where
  entries : List (Text × Entry)

/-- Where a path leads. -/
inductive Place where
  /-- The working directory. -/
  | here
  /-- An empty folder in it. -/
  | folder
  /-- A folder outside, in which nothing has a name. -/
  | outside
  /-- A file. -/
  | file (bytes : ByteArray)

/-- The number of bytes of a text in UTF-8. -/
def Text.byteCount (t : Text) : Nat :=
  t.foldl (fun count c => count + c.utf8Size) 0

/-- The components of a path: the texts between its slashes. -/
def Text.components : Text → List Text
  | [] => [[]]
  | c :: t =>
    if c = '/' then [] :: components t
    else match components t with
      | [] => [[c]]
      | first :: rest => (c :: first) :: rest

namespace Directory

/-- The greatest number of bytes in a component of a path. -/
def maxComponent : Nat := 255

/-- The greatest number of bytes in a path. -/
def maxPath : Nat := 4095

/-- One component further. -/
def step (directory : Directory) (place : Place) (component : Text) : Except ReadFault Place :=
  match place with
  | .file _ => .error .notDirectory
  | place =>
    if component = [] ∨ component = ['.'] then .ok place
    else if component = ['.', '.'] then
      match place with
      | .folder => .ok .here
      | _ => .ok .outside
    else if maxComponent < component.byteCount then .error .nameTooLong
    else match place, directory.entries.lookup component with
      | .here, some (.file bytes) => .ok (.file bytes)
      | .here, some .folder => .ok .folder
      | _, _ => .error .notFound

/-- Where a path leads. -/
def resolve (directory : Directory) (path : Text) : Except ReadFault Place :=
  if path.contains '\x00' then .error .nulInName
  else if path.isEmpty then .error .notFound
  else if maxPath < path.byteCount then .error .nameTooLong
  else
    let start := if path.head? = some '/' then Place.outside else Place.here
    path.components.foldlM directory.step start

/-- The text of the file at a path. -/
def read (directory : Directory) (path : Text) : Except ReadFault Text :=
  match directory.resolve path with
  | .error fault => .error fault
  | .ok (.file bytes) =>
    match String.fromUTF8? bytes with
    | some s => .ok s.toList
    | none => .error .invalidEncoding
  | .ok _ => .error .isDirectory

end Directory

end UnaryLisp
