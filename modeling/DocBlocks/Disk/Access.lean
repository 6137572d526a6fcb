import DocBlocks.Disk.Entry
import DocBlocks.Disk.Path

/-!
# Access to files

Reading and writing by path. A path is followed name by name from the root of the tree.

## Main definitions

* `Disk.Fault`: why a file cannot be read or written.
* `Disk.locate`: the place that a path leads to.
* `Disk.read`, `Disk.write`: the text of a file, and a tree with a text written to a file.
* `Disk.openFault?`: why the entries of a folder cannot be listed.
-/

namespace DocBlocks.Disk

/-- Why a file cannot be read or written, or a folder not be opened. -/
inductive Fault where
  | notFound
  | notFolder
  | isFolder
  | notText
  | nameTooLong
  /-- A path holds the character that ends names. -/
  | badName
  | denied
  | readOnly
  | noSpace
  deriving DecidableEq, Repr, Inhabited

/-- The message about a fault. -/
def Fault.message : Fault → Text
  | notFound => "No such file or directory (os error 2)".toList
  | notFolder => "Not a directory (os error 20)".toList
  | isFolder => "Is a directory (os error 21)".toList
  | notText => "stream did not contain valid UTF-8".toList
  | nameTooLong => "File name too long (os error 36)".toList
  | badName => "file name contained an unexpected NUL byte".toList
  | denied => "Permission denied (os error 13)".toList
  | readOnly => "Read-only file system (os error 30)".toList
  | noSpace => "No space left on device (os error 28)".toList

/-- The greatest number of bytes of a name. -/
def maxName : Nat := 255

/-- The number of bytes that a path has to stay below. -/
def pathLimit : Nat := 4096

/-- The entries of the folder at a place. -/
def folderAt (root : Entry) (place : Place) : Except Fault (List (Text × Entry)) :=
  match root.at? place with
  | some (.folder entries) => .ok entries
  | some (.file _) => .error .notFolder
  | none => .error .notFound

/-- The place that names lead to from a place. -/
def follow (root : Entry) : Place → List Text → Except Fault Place
  | here, [] => .ok here
  | here, name :: names => do
    let entries ← folderAt root here
    if name = [] ∨ name = ['.'] then follow root here names
    else if name = ['.', '.'] then follow root here.dropLast names
    else if maxName < Text.bytes name then .error .nameTooLong
    else if (entries.lookup name).isSome then follow root (here ++ [name]) names
    else .error .notFound

/-- Refuses a path that no tree has. -/
def checkPath (path : Text) : Except Fault Unit :=
  if path.contains '\x00' then .error .badName
  else if path = [] then .error .notFound
  else if pathLimit ≤ path.bytes then .error .nameTooLong
  else .ok ()

/-- The place that a path leads to. -/
def locate (root : Entry) (path : Text) : Except Fault Place := do
  checkPath path
  follow root [] (Path.names path)

/-- What a path leads to, if to anything. -/
def find? (root : Entry) (path : Text) : Option Entry :=
  match locate root path with
  | .ok place => root.at? place
  | .error _ => none

/-- Whether a path leads to a folder. -/
def isFolder (root : Entry) (path : Text) : Bool := (find? root path).any Entry.isFolder

/-- The text of the file at a path. -/
def read (root : Entry) (path : Text) : Except Fault Text := do
  match root.at? (← locate root path) with
  | some (.file (.text t)) => .ok t
  | some (.file (.binary _)) => .error .notText
  | some (.folder _) => .error .isFolder
  | none => .error .notFound

/-- The place of the file that a path names, which need not be there yet. -/
def target (root : Entry) (path : Text) : Except Fault Place := do
  checkPath path
  match (Path.names path).reverse.dropWhile (· = []) with
  | [] => .error .isFolder
  | name :: before =>
    let folder ← follow root [] before.reverse
    let entries ← folderAt root folder
    if path.getLast? = some '/' ∨ name = ['.'] ∨ name = ['.', '.'] then .error .isFolder
    else if maxName < Text.bytes name then .error .nameTooLong
    else if (entries.lookup name).any Entry.isFolder then .error .isFolder
    else .ok (folder ++ [name])

/-- The tree with a text in the file at a path. A write that the system refuses, with a fault of its
own, has no effect. -/
def write (root : Entry) (path t : Text) (refusal : Option Fault) : Except Fault Entry := do
  let place ← target root path
  match refusal with
  | some f => .error f
  | none => return root.put (.text t) place

/-- Why the folder at a path cannot be opened, if it cannot. `closed` holds the folders that the
system does not open, by their places. -/
def openFault? (root : Entry) (closed : List (Place × Fault)) (path : Text) : Option Fault :=
  match locate root path with
  | .error f => some f
  | .ok place => closed.lookup place

end DocBlocks.Disk
