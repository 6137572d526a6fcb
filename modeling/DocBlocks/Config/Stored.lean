import DocBlocks.Config.File
import DocBlocks.Failure

/-!
# Stored configurations

Where on a disk the settings are looked for and where they are written. A run names its file, or
takes the first that is there of a few usual ones.

## Main definitions

* `Config.file?`: the file with the settings of a run.
* `Config.stored`, `Config.forRun`: the settings in that file, without and with those of the
  environment.
* `Config.destination`, `Config.store`: the file that settings are written to, and the writing.
-/

namespace DocBlocks.Config

/-- The names of the files that settings are looked for in. -/
def fileNames : List Text := ["Annotator.toml".toList, "annotator.toml".toList, ".annotator.toml".toList]

/-- The file that settings are written to if there is none yet. -/
def newFile : Text := "annotator.toml".toList

/-- Whether something stands at a path. -/
def exists? (disk : Entry) (path : Text) : Bool := (Disk.find? disk path).isSome

/-- The settings in a file. -/
def load (disk : Entry) (path : Text) : Except Failure Config :=
  match Disk.read disk path with
  | .error f => .error (.disk f)
  | .ok text => (read? text).elim (.error .badConfig) .ok

/-- The file with the settings of a run: the one that is named, or the first of the usual ones.
There is none if nothing stands there. -/
def file? (disk : Entry) : Option Text → Option Text
  | some path => if exists? disk path then some path else none
  | none => fileNames.find? (exists? disk)

/-- The settings stored for a run. -/
def stored (disk : Entry) (named : Option Text) : Except Failure Config :=
  match file? disk named with
  | some path => load disk path
  | none => .ok {}

/-- The settings of a run, with those from the environment. -/
def forRun (disk : Entry) (named : Option Text) (e : Environment) : Except Failure Config :=
  (stored disk named).map (·.override e)

/-- The file that settings of a run are written to: the one that is named, or the first of the usual
ones that is there, or a new one. -/
def destination (disk : Entry) (named : Option Text) : Text :=
  named.getD ((fileNames.find? (exists? disk)).getD newFile)

/-- The settings in a file that need not be there. -/
def loadIfThere (disk : Entry) (path : Text) : Except Failure Config :=
  if exists? disk path then load disk path else .ok {}

/-- The disk with settings in a file, unless the system refuses the write. -/
def store (c : Config) (disk : Entry) (path : Text) (refusal : Option Disk.Fault) : Except Failure Entry :=
  (Disk.write disk path c.render refusal).mapError .disk

end DocBlocks.Config
