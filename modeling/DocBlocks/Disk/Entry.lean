import DocBlocks.Text.Basic

/-!
# Files and folders

A disk is a tree of folders with files at its leaves.

## Main definitions

* `Entry`: a file or a folder.
* `Entry.at?`: what stands at a place in a tree.
* `Entry.put`, `Entry.make`, `Entry.remove`: changes to a tree.
-/

namespace DocBlocks

/-- What a file holds: a text, or bytes that are not the UTF-8 encoding of one. -/
inductive Content where
  | text (t : Text)
  | binary (bytes : List UInt8)
  deriving DecidableEq, Repr, Inhabited

/-- What a file of some bytes holds. -/
def Content.ofBytes (bytes : List UInt8) : Content :=
  match String.fromUTF8? ⟨bytes.toArray⟩ with
  | some t => text t.toList
  | none => binary bytes

/-- A file, or a folder with its entries by name. -/
inductive Entry where
  | file (content : Content)
  | folder (entries : List (Text × Entry))
  deriving Inhabited

/-- The names that lead from the root of a tree to one of its entries. -/
abbrev Place := List Text

namespace Entry

/-- Whether an entry is a folder. -/
def isFolder : Entry → Bool
  | folder _ => true
  | file _ => false

/-- What stands at a place. -/
def at? : Place → Entry → Option Entry
  | [], e => some e
  | name :: place, folder entries => (entries.lookup name).bind (at? place)
  | _ :: _, file _ => none

/-- Entries with one of them changed, or with a new one. -/
def update (name : Text) (change : Option Entry → Entry) : List (Text × Entry) → List (Text × Entry)
  | [] => [(name, change none)]
  | (n, e) :: rest =>
    if n = name then (n, change (some e)) :: rest else (n, e) :: update name change rest

/-- A tree with a file at a place. Folders on the way that are missing are made. A place below a
file does not change the tree. -/
def put (content : Content) : Place → Entry → Entry
  | [], _ => file content
  | name :: place, folder entries =>
    folder (update name (fun e => put content place (e.getD (folder []))) entries)
  | _ :: _, file c => file c

/-- A tree with a folder at a place, unless something stands there. -/
def make : Place → Entry → Entry
  | [], e => e
  | name :: place, folder entries =>
    folder (update name (fun e => make place (e.getD (folder []))) entries)
  | _ :: _, file c => file c

/-- A tree without what stands at a place. -/
def remove : Place → Entry → Entry
  | [], e => e
  | _ :: _, file c => file c
  | [name], folder entries => folder (entries.filter fun e => e.1 ≠ name)
  | name :: place, folder entries =>
    folder (entries.map fun (n, e) => if n = name then (n, remove place e) else (n, e))

end Entry

end DocBlocks
