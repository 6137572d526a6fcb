import DocBlocks.Annotation.FileRun
import DocBlocks.Disk.Walk

/-!
# Runs on a folder

Every file below a folder that is written in a known dialect is annotated, one after the other. A
file that fails does not keep the others from their turn, nor does a folder that cannot be opened.

## Main definitions

* `FolderRun`: the report on the files of a folder, and `FolderRun.summary`, the report in a
  sentence.
* `FolderRun.addFile`, `FolderRun.addClosed`: a file and a folder added to it.
* `Session.visit`: runs on the files of a walk.
* `Session.annotateFolder`: a run on a folder.
-/

namespace DocBlocks

/-- The names of folders that are never entered below the folder where a walk starts. -/
def ignoredFolders : List Text :=
  ["node_modules".toList, ".git".toList, "dist".toList, "build".toList, "out".toList, ".vs".toList, "obj".toList,
    "bin".toList, "debug".toList, "release".toList]

/-- What a run on a folder has come to so far. -/
structure FolderRun where
  /-- The number of files that had their turn. -/
  scanned : Nat := 0
  /-- The number of files with a new text. -/
  changed : Nat := 0
  /-- The number of files whose run failed, and of folders that could not be opened. -/
  failed : Nat := 0
  /-- One line for each of these. -/
  summaries : List Text := []
  /-- The files that changed, with the texts that were not written. -/
  changes : List (Text × Option Text) := []
  deriving DecidableEq, Repr, Inhabited

namespace FolderRun

/-- The run in a sentence. -/
def summary (r : FolderRun) : Text :=
  "Scanned ".toList ++ Nat.toDigits 10 r.scanned ++ " file(s). ".toList ++ Nat.toDigits 10 r.changed ++
    " changed.".toList ++
    if r.failed = 0 then [] else ' ' :: Nat.toDigits 10 r.failed ++ " failed.".toList

/-- The line about what went wrong with a file or a folder. -/
def errorLine (relative message : Text) : Text := "Error on ".toList ++ relative ++ [':', ' '] ++ message

/-- The report with a failure added. -/
def addFailure (r : FolderRun) (relative message : Text) : FolderRun :=
  { r with failed := r.failed + 1, summaries := r.summaries ++ [errorLine relative message] }

/-- The report with a folder added that could not be opened. -/
def addClosed (r : FolderRun) (relative path : Text) (f : Disk.Fault) : FolderRun :=
  r.addFailure relative ("IO error for operation on ".toList ++ path ++ [':', ' '] ++ f.message)

/-- The report with a file added, and what the run on it came to. -/
def addFile (r : FolderRun) (relative path : Text) (result : Except Failure Outcome) : FolderRun :=
  let r := { r with scanned := r.scanned + 1 }
  match result with
  | .ok outcome =>
    if outcome.changed then
      { r with
        changed := r.changed + 1
        summaries := r.summaries ++ ["Changed: ".toList ++ relative]
        changes := r.changes ++ [(path, outcome.text?)] }
    else r
  | .error f => r.addFailure relative f.message

end FolderRun

namespace Session

/-- Goes on with a run on a folder, from stop to stop. Files without a known dialect are passed
over. -/
def visit (g : Option Generator) (o : Options) (folder : Text) :
    List Disk.Stop → FolderRun → Session → FolderRun × Session
  | [], run, s => (run, s)
  | .closed place f :: stops, run, s =>
    s.visit g o folder stops (run.addClosed (['/'].intercalate place) (Path.below folder place) f)
  | .file place :: stops, run, s =>
    let path := Path.below folder place
    if (Path.dialect? path).isSome then
      let (result, s) := s.annotateWith g o path
      s.visit g o folder stops (run.addFile (['/'].intercalate place) path result)
    else s.visit g o folder stops run

/-- The stops of a walk over a folder. -/
def stops (s : Session) (folder : Text) (e : Entry) : List Disk.Stop :=
  Disk.walk ignoredFolders.contains (fun place => Disk.openFault? s.disk s.closed (Path.below folder place)) [] e

/-- A run on a folder. -/
def annotateFolder (c : Config) (o : Options) (folder : Text) (s : Session) :
    Except Failure FolderRun × Session :=
  match Disk.find? s.disk folder with
  | some (.folder entries) =>
    let (run, s) := s.visit (s.generator? c o) o folder (s.stops folder (.folder entries)) {}
    (.ok run, s)
  | _ => (.error (.notFolder folder), s)

end Session

end DocBlocks
