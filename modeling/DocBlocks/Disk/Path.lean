import DocBlocks.Dialect

/-!
# Paths

A path is a text with names between slashes.

## Main definitions

* `Path.names`: the parts of a path.
* `Path.join`, `Path.below`: paths of what lies in a folder.
* `Path.extension?`: the extension of the last name.
* `Path.dialect?`: the dialect that a path tells.
-/

namespace DocBlocks.Path

/-- The parts of a path between its slashes. -/
def names (path : Text) : List Text := path.splitOn '/'

/-- The names that a path without steps upwards leads through. -/
def steps (path : Text) : List Text := (names path).filter fun n => n ≠ [] ∧ n ≠ ['.']

/-- The path of an entry of a folder. -/
def join (folder name : Text) : Text :=
  if folder = [] ∨ folder.getLast? = some '/' then folder ++ name else folder ++ '/' :: name

/-- The path of what is reached through some names from a folder. -/
def below (folder : Text) (place : List Text) : Text := place.foldl join folder

/-- The last name in a path, if the path ends with one. Slashes at its end and steps to the folder
itself do not count. -/
def lastName? (path : Text) : Option Text :=
  (steps path).getLast?.filter (· ≠ ['.', '.'])

/-- The extension of the last name: what stands behind its last dot. A dot in front of a name starts
no extension. -/
def extension? (path : Text) : Option Text :=
  (lastName? path).bind fun name =>
    let parts := name.splitOn '.'
    if parts.length < 2 ∨ parts.dropLast = [[]] then none else parts.getLast?

/-- The dialect of the file at a path. -/
def dialect? (path : Text) : Option Dialect := (extension? path).bind Dialect.ofExtension?

end DocBlocks.Path
