import DocBlocks.Annotation.FolderRun

/-!
# Workbenches

Work on a disk in steps. Renderings are kept by name and committed later, while files may change in
between.

## Main definitions

* `Step`: a step of the work.
* `Workbench`: the state of the work.
* `Workbench.step`: makes a step.
-/

namespace DocBlocks

/-- A step of work on a disk. -/
inductive Step where
  /-- Somebody else writes a file. -/
  | write (path : Text) (content : Content)
  /-- Somebody else makes a folder. -/
  | makeFolder (path : Text)
  /-- Somebody else removes a file or a folder. -/
  | remove (path : Text)
  /-- Renders a file and keeps the rendering in a slot. -/
  | render (slot path : Text) (o : Options)
  /-- Writes the rendering in a slot. -/
  | commit (slot : Text)
  | annotateFile (path : Text) (o : Options)
  | annotateFolder (path : Text) (o : Options)
  deriving DecidableEq, Repr, Inhabited

/-- What a step comes to. -/
inductive StepResult where
  | done
  | rendering (r : Except Failure Rendering)
  | commit (r : Except Failure Unit)
  /-- There is nothing in the slot. -/
  | emptySlot
  | file (r : Except Failure Outcome)
  | folder (r : Except Failure FolderRun)

/-- The state of work on a disk. -/
structure Workbench where
  config : Config
  session : Session
  /-- The renderings that are kept. Of several in one slot the first counts. -/
  slots : List (Text × Rendered) := []

namespace Workbench

/-- The workbench after somebody else changed the disk. -/
def changeDisk (b : Workbench) (change : Entry → Entry) : Workbench :=
  { b with session := { b.session with disk := change b.session.disk } }

/-- The workbench with what a rendering came to in a slot. A file that is skipped or fails leaves
the slot as it is. -/
def keep (b : Workbench) (slot : Text) : Except Failure Rendering → Workbench
  | .ok (.rendered r) => { b with slots := (slot, r) :: b.slots }
  | .ok (.skipped _) | .error _ => b

/-- Makes a step. -/
def step (b : Workbench) : Step → StepResult × Workbench
  | .write path content => (.done, b.changeDisk (Entry.put content (Path.steps path)))
  | .makeFolder path => (.done, b.changeDisk (Entry.make (Path.steps path)))
  | .remove path => (.done, b.changeDisk (Entry.remove (Path.steps path)))
  | .render slot path o =>
    let (r, s) := b.session.render (b.session.generator? b.config o) o.overwrite path
    (.rendering r, { b with session := s }.keep slot r)
  | .commit slot =>
    match b.slots.lookup slot with
    | none => (.emptySlot, b)
    | some r =>
      let (result, s) := b.session.commit r
      (.commit result, { b with session := s })
  | .annotateFile path o =>
    let (r, s) := b.session.annotateFile b.config o path
    (.file r, { b with session := s })
  | .annotateFolder path o =>
    let (r, s) := b.session.annotateFolder b.config o path
    (.folder r, { b with session := s })

end Workbench

end DocBlocks
