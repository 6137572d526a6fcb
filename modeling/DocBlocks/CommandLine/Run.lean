import DocBlocks.Annotation.FolderRun
import DocBlocks.CommandLine.Command
import DocBlocks.Config.Stored

/-!
# Running commands

What a command does, and what it writes for its user. Progress goes to a channel of its own, apart
from the results.

## Main definitions

* `CommandError`: why a command failed.
* `Command.run`: what a command does, and its results.
* `Report`: what a command wrote.
* `CommandLine.runOn`, `CommandLine.run`: runs a command line.
-/

namespace DocBlocks

/-- Why a command failed. -/
inductive CommandError where
  | failed (f : Failure)
  | annotating (path : Text) (f : Failure)
  | unsupported (path : Text)
  | reading (path : Text) (f : Disk.Fault)
  | writing (path : Text) (f : Failure)
  deriving DecidableEq, Repr, Inhabited

namespace CommandError

/-- The failure behind the error, if it is one of those that work on files can end in. -/
def failure? : CommandError → Option Failure
  | failed f | annotating _ f | writing _ f => some f
  | unsupported _ | reading .. => none

/-- What was done, and what is behind the error. -/
def chain : CommandError → List Text
  | failed f => f.chain
  | annotating path f => ("Failed to annotate ".toList ++ path) :: f.chain
  | unsupported path => ["Unsupported file type: ".toList ++ path]
  | reading path f => ["Failed to read ".toList ++ path, f.message]
  | writing path f => ("Failed to write ".toList ++ path) :: f.chain

/-- The message about an error. -/
def message (e : CommandError) : Text := [':', ' '].intercalate e.chain

end CommandError

/-- A line with its line feed. -/
def Text.line (t : Text) : Text := t ++ ['\n']

/-- The number of characters of a new text that are shown. -/
def shownLength : Nat := 4000

/-- The start of a text, with a note if there is more of it. -/
def Text.shown (t : Text) : Text :=
  if shownLength < t.length then t.take shownLength ++ "\n... (truncated)".toList else t

/-- The heading above the text of a file. -/
def heading (path : Text) : Text := Text.line ("\n--- ".toList ++ path)

/-! ## Commands -/

namespace Command

/-- The results of a run on a folder. New texts are shown if they were not written. -/
def folderLines (o : Options) (run : FolderRun) : Text :=
  run.summaries.flatMap (fun t => Text.line ([' ', ' '] ++ t)) ++
    (if o.preview then
      run.changes.flatMap fun (path, text) =>
        heading path ++ (text.map fun t => Text.line (Text.shown t)).getD []
    else []) ++
    Text.line run.summary

/-- The results of a run on a file. -/
def fileLines (path : Text) (outcome : Outcome) : Text :=
  Text.line (path ++ [':', ' '] ++ outcome.reason) ++ (outcome.text?.map fun t => Text.line (Text.shown t)).getD []

/-- Documents a file, or the files of a folder. -/
def annotateTarget (c : Config) (target : Text) (o : Options) (s : Session) : Except CommandError Text × Session :=
  if Disk.isFolder s.disk target then
    match s.annotateFolder c o target with
    | (.ok run, s) => (.ok (folderLines o run), s)
    | (.error f, s) => (.error (.failed f), s)
  else
    match s.annotateFile c o target with
    | (.ok outcome, s) => (.ok (fileLines target outcome), s)
    | (.error f, s) => (.error (.annotating target f), s)

/-- The lines about a unit. -/
def unitLines (u : CodeUnit) : Text :=
  Text.line ("  ".toList ++ u.shape.label.toList ++ [' '] ++ u.name ++ ['('] ++
      [',', ' '].intercalate (u.parameters.map Parameter.name) ++ ") [".toList ++
      Nat.toDigits 10 u.span.start ++ "..".toList ++ Nat.toDigits 10 u.span.stop ++ [']'] ++
      if u.isAsync then " async".toList else []) ++
    Text.line ("      ".toList ++ u.summarize)

/-- Lists the units of a file. -/
def listUnits (disk : Entry) (file : Text) : Except CommandError Text :=
  match Path.dialect? file with
  | none => .error (.unsupported file)
  | some d =>
    match Disk.read disk file with
    | .error f => .error (.reading file f)
    | .ok source =>
      match DocBlocks.extract d source with
      | .error e => .error (.failed (.badSource e))
      | .ok units =>
        .ok (Text.line ("📄 ".toList ++ Nat.toDigits 10 units.length ++ " unit(s) in ".toList ++ file) ++
          units.flatMap unitLines)

/-- Stores the model to ask. Settings from the environment stay out of the file. -/
def storeModel (named : Option Text) (name : Text) (s : Session) : Except CommandError Text × Session :=
  let path := Config.destination s.disk named
  match Config.loadIfThere s.disk path with
  | .error f => (.error (.failed f), s)
  | .ok c =>
    match { c with model := some name : Config }.store s.disk path s.refusal with
    | .error f => (.error (.writing path f), { s with refusals := s.refusals.tail })
    | .ok disk =>
      (.ok (Text.line ("✅ Model set to ".toList ++ name ++ " in ".toList ++ path)),
        { s with disk := disk, refusals := s.refusals.tail })

/-- What a command does with some settings, and its results. -/
def run (named : Option Text) (c : Config) (command : Command) (s : Session) : Except CommandError Text × Session :=
  match command with
  | .annotate target o => annotateTarget c target o s
  | .extract file => (listUnits s.disk file, s)
  | .model name => storeModel named name s

/-- The decisions during a command. Nobody sits at a terminal, so changes are declined if somebody
is to be asked. -/
def decisions : Command → Option (List Bool)
  | .annotate _ o => if o.interactive then some [] else none
  | .extract _ | .model _ => none

end Command

/-! ## Reports -/

namespace Event

/-- What is shown among the results when something happens: a change that somebody is to decide
about. -/
def shown : Event → Text
  | .decided p _ => heading p.path ++ Text.line (['\n'].intercalate p.report) ++ Text.line (Text.shown p.proposed)
  | _ => []

/-- What is shown of the progress when something happens. -/
def progress : Event → Text
  | .started file name index total =>
    Text.line ("  [".toList ++ Nat.toDigits 10 index ++ ['/'] ++ Nat.toDigits 10 total ++ "] ".toList ++ name ++
      " in ".toList ++ file)
  | _ => []

end Event

/-- What a command wrote, and why it failed if it did. -/
structure Report where
  results : Text
  progress : Text
  error : Option CommandError
  deriving DecidableEq, Repr, Inhabited

/-- Runs a command line on a disk, where the system refuses some writes and does not open some
folders. Settings come from the configuration file and from the environment. -/
def CommandLine.runOn (l : CommandLine) (e : Environment) (disk : Entry) (answers : List Http.Answer)
    (refusals : List (Option Disk.Fault)) (closed : List (Place × Disk.Fault)) : Report × Session :=
  let s : Session :=
    { disk := disk, answers := answers, decisions := l.command.decisions, refusals := refusals, closed := closed }
  let (result, s) : Except CommandError Text × Session :=
    match Config.forRun disk l.config e with
    | .error f => (.error (.failed f), s)
    | .ok c => l.command.run l.config c s
  let results := s.events.flatMap Event.shown
  let progress := s.events.flatMap Event.progress
  match result with
  | .ok text => (⟨results ++ text, progress, none⟩, s)
  | .error error => (⟨results, progress, some error⟩, s)

/-- Runs a command line on a disk, where the system refuses no write and opens each folder. -/
def CommandLine.run (l : CommandLine) (e : Environment) (disk : Entry) (answers : List Http.Answer) : Report × Session :=
  l.runOn e disk answers [] []

end DocBlocks
