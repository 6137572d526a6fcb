import DocBlocks.CommandLine.Run
import DocBlocks.CommandLine.Usage

/-!
# The program

Brings what a command needs from the disk, runs the command, and puts back what has changed.
Services are not reached from here, so a command gets no answers from them.
-/

namespace DocBlocks.Program

/-- The part of the disk that was brought in, with the paths of its files. -/
structure Loaded where
  disk : Entry := .folder []
  files : List Text := []

/-- The place that a path leads to, if nothing is in the way. -/
def placeOf (path : Text) : Place :=
  (Path.steps path).foldl (fun here name => if name = ['.', '.'] then here.dropLast else here ++ [name]) []

/-- Brings in what stands at a path. Below a folder, files without a dialect, links and ignored
folders are left out. -/
partial def load (path : Text) (l : Loaded) : IO Loaded := do
  try
    let real ← IO.FS.realPath (String.ofList path)
    if ← real.isDir then
      let mut loaded := { l with disk := l.disk.make (placeOf path) }
      for e in ← real.readDir do
        let name := e.fileName.toList
        let isFolder ← e.path.isDir
        let isLink := (← e.path.symlinkMetadata).type == .symlink
        let wanted := if isFolder then !ignoredFolders.contains name else (Path.dialect? name).isSome
        if wanted && !isLink then
          loaded ← load (Path.join path name) loaded
      return loaded
    else
      let bytes ← IO.FS.readBinFile real
      return ⟨l.disk.put (Content.ofBytes bytes.toList) (placeOf path), path :: l.files⟩
  catch _ => return l

/-- Brings in the folder that a path lies in, without its entries. -/
def loadFolderOf (path : Text) (l : Loaded) : IO Loaded := do
  let folder := (path.reverse.dropWhile (· ≠ '/')).reverse
  if folder = [] then return l
  try
    let real ← IO.FS.realPath (String.ofList folder)
    return if ← real.isDir then { l with disk := l.disk.make (placeOf folder) } else l
  catch _ => return l

/-- The paths that a command line looks at. -/
def pathsOf (l : CommandLine) : List Text :=
  (match l.config with
    | some path => [path]
    | none => Config.fileNames) ++
    match l.command with
    | .annotate target _ => [target]
    | .extract file => [file]
    | .model _ => []

/-- The text of the file at a place. -/
def textAt? (disk : Entry) (place : Place) : Option Text :=
  match disk.at? place with
  | some (.file (.text t)) => some t
  | _ => none

/-- Writes the files whose texts differ on two disks. -/
def store (paths : List Text) (before after : Entry) : IO Unit :=
  paths.forM fun path => do
    match textAt? after (placeOf path) with
    | none => pure ()
    | some t =>
      if textAt? before (placeOf path) ≠ some t then
        IO.FS.writeFile (String.ofList path) (String.ofList t)

/-- The settings that the environment gives. -/
def environment : IO Environment := do
  let get (name : String) : IO (Option Text) := do
    return (← IO.getEnv name).map String.toList
  return ⟨← get "ANNOTATOR_API_KEY", ← get "ANNOTATOR_BASE_URL", ← get "ANNOTATOR_MODEL"⟩

/-- Runs a command line on the disk. -/
def run (l : CommandLine) : IO UInt32 := do
  let mut loaded : Loaded := {}
  for path in pathsOf l do
    loaded ← load path (← loadFolderOf path loaded)
  let (report, s) := l.run (← environment) loaded.disk []
  store (Config.destination loaded.disk l.config :: loaded.files) loaded.disk s.disk
  IO.eprint (String.ofList report.progress)
  IO.print (String.ofList report.results)
  match report.error with
  | none => return 0
  | some e =>
    IO.eprintln ("Error: " ++ String.ofList e.message)
    return 1

end DocBlocks.Program

open DocBlocks in
/-- Runs the command that the arguments make, or says why they make none. -/
def main (arguments : List String) : IO UInt32 := do
  match CommandLine.read (arguments.map String.toList) with
  | .ok l => Program.run l
  | .error r =>
    let said := String.ofList r.message
    if r.isAnswer then
      IO.print said
      return 0
    else
      IO.eprint said
      return 2
