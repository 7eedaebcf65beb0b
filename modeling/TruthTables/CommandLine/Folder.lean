import TruthTables.Entries
import TruthTables.Fault

/-!
A folder that holds files and no folders, and the paths that lead to its files.
-/

namespace TruthTables

/-- The files by name, oldest first. -/
structure Folder where
  files : List (String × String)
  deriving DecidableEq, Repr

namespace Path

def parts (path : String) : List String :=
  path.splitToList (· == '/')

/-- The parts that say where to go: empty parts and dots do not. -/
def segments (path : String) : List String :=
  (parts path).filter fun part => part != "" && part != "."

def parent (path : String) : String :=
  "/".intercalate (segments path).dropLast

/-- The segments that are left behind the climb to the folders above. -/
def descent (path : String) : List String :=
  (segments path).dropWhile (· == "..")

def trail (path : String) : List String :=
  (parts path).reverse.takeWhile fun part => part == "" || part == "."

def nameLimit : Nat := 255

def isLong (name : String) : Bool :=
  nameLimit < name.utf8ByteSize

/-- Why a path cannot be followed through a name that no folder has. -/
def deadEnd (name path : String) : Fault :=
  if isLong name then .nameTooLong path else .missingFolder path

end Path

namespace Folder

def empty : Folder := ⟨[]⟩

def find? (folder : Folder) (name : String) : Option String :=
  Entries.get? name folder.files

def put (folder : Folder) (name content : String) : Folder :=
  ⟨Entries.put name content folder.files⟩

/-- What the file holds to which a path leads. -/
def contentAt? (folder : Folder) (path : String) : Option String :=
  match Path.segments path with
  | [name] => folder.find? name
  | _ => none

theorem find?_put (folder : Folder) (name content x : String) :
    (folder.put name content).find? x = if name = x then some content else folder.find? x :=
  Entries.get?_put name content folder.files x

/-- Writes the file at a path. Only the folder itself and those above it are there, so a path
through another folder leads nowhere, and one that ends in a slash would have to lead to a folder.
What is written into a folder above is not seen here. -/
def write (folder : Folder) (path content : String) : Except Fault Folder :=
  if path.toList.contains '\x00' then .error .zeroInPath
  else
    match Path.descent path with
    | [] => .error (.isFolder path)
    | [name] =>
      if (Path.trail path).contains "." then .error (Path.deadEnd name path)
      else if (Path.trail path).contains "" then .error (.isFolder path)
      else if Path.isLong name then .error (.nameTooLong path)
      else if Path.segments path = [name] then .ok (folder.put name content)
      else .ok folder
    | name :: _ => .error (Path.deadEnd name path)

def findParent (path : String) : Except Fault Unit :=
  match Path.descent path with
  | name :: _ :: _ =>
    .error (if Path.isLong name then .nameTooLong (Path.parent path)
      else .missingParent (Path.parent path))
  | _ => .ok ()

end Folder

end TruthTables
