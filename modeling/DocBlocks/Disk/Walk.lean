import DocBlocks.Disk.Access

/-!
# Walks over folders

A walk comes to the files below a folder, depth first and by name within each folder. Some folders
are left out. Of a folder that cannot be opened the walk only tells why.

## Main definitions

* `Disk.Stop`: what a walk comes to.
* `Disk.walk`: the stops of a walk.
-/

namespace DocBlocks.Disk

/-- What a walk comes to. -/
inductive Stop where
  | file (place : Place)
  /-- A folder that cannot be opened. -/
  | closed (place : Place) (fault : Fault)
  deriving DecidableEq, Repr, Inhabited

/-- Whether a name does not come behind another, character by character. -/
def nameLe : Text → Text → Bool
  | [], _ => true
  | _ :: _, [] => false
  | a :: s, b :: t => if a = b then nameLe s t else a.toNat < b.toNat

/-- Adds a named value to others that are sorted by name. -/
def insertByName {α : Type} (x : Text × α) : List (Text × α) → List (Text × α)
  | [] => [x]
  | y :: ys => if nameLe x.1 y.1 then x :: y :: ys else y :: insertByName x ys

/-- Named values, sorted by name. -/
def byName {α : Type} (xs : List (Text × α)) : List (Text × α) := xs.foldr insertByName []

mutual

/-- The stops of a walk over the entry at a place. Folders for which `skip` holds of their name are
left out with all that is in them; `fault?` tells why the folder at a place cannot be opened. -/
def walk (skip : Text → Bool) (fault? : Place → Option Fault) (here : Place) : Entry → List Stop
  | .file _ => [.file here]
  | .folder entries =>
    match fault? here with
    | some f => [.closed here f]
    | none => (byName (walkEach skip fault? here entries)).flatMap Prod.snd

/-- The stops of walks over the entries of the folder at a place, by name. -/
def walkEach (skip : Text → Bool) (fault? : Place → Option Fault) (here : Place) :
    List (Text × Entry) → List (Text × List Stop)
  | [] => []
  | (name, .file _) :: rest => (name, [.file (here ++ [name])]) :: walkEach skip fault? here rest
  | (name, .folder entries) :: rest =>
    (name, if skip name then [] else walk skip fault? (here ++ [name]) (.folder entries)) ::
      walkEach skip fault? here rest

end

end DocBlocks.Disk
