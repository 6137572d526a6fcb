import DocBlocks.Annotation.Target
import DocBlocks.Description.Requested
import DocBlocks.Description.Summary

/-!
# Renderings

The new text of a file is made without touching the file.

## Main definitions

* `Options`: what is asked of a run.
* `Session.generator?`: the generator of a run.
* `Skip`: why a file needs no new text.
* `Rendered`: a file with its new text.
* `Session.render`: makes the new text of a file.
-/

namespace DocBlocks

/-- What is asked of a run. -/
structure Options where
  /-- Replace comments that are already there. -/
  overwrite : Bool := false
  /-- Write nothing. -/
  preview : Bool := false
  /-- Have somebody decide about each file. -/
  interactive : Bool := false
  /-- Ask a generator for the comments. -/
  external : Bool := false
  /-- The model to ask, in place of that of the configuration. -/
  model : Option Text := none
  deriving DecidableEq, Repr, Inhabited

/-- The generator of a run, if one is wanted and can be asked. Replies written down beforehand go
before the service of the configuration. -/
def Session.generator? (s : Session) (c : Config) (o : Options) : Option Generator :=
  if o.external then
    if s.script.isSome then some .script
    else (Generator.ofSettings (c.resolve o.model)).toOption
  else none

/-- Why a file needs no new text. -/
inductive Skip where
  | unsupported
  | noUnits
  | documented
  deriving DecidableEq, Repr, Inhabited

/-- The reason in words. -/
def Skip.reason : Skip → Text
  | unsupported => "Unsupported file type".toList
  | noUnits => "No functions/classes found".toList
  | documented => "All functions already documented".toList

/-- A file with its new text. -/
structure Rendered where
  path : Text
  original : Text
  text : Text
  /-- What changes, one line for each comment. -/
  report : List Text
  deriving DecidableEq, Repr, Inhabited

namespace Rendered

/-- The number of units that get a comment. -/
def count (r : Rendered) : Nat := r.report.length

/-- What the file is known by until the new text is written. -/
def fingerprint (r : Rendered) : Text := DocBlocks.fingerprint r.original

end Rendered

/-- What rendering a file comes to. -/
inductive Rendering where
  | skipped (reason : Skip)
  | rendered (r : Rendered)
  deriving DecidableEq, Repr, Inhabited

/-- What there is to do about a file. -/
inductive Plan where
  | skip (reason : Skip)
  | document (extension source : Text) (targets : List Target)
  deriving DecidableEq, Repr, Inhabited

/-- The plan for a source. -/
def Plan.ofSource (d : Dialect) (extension source : Text) (overwrite : Bool) : Except Failure Plan :=
  match extract d source with
  | .error e => .error (.badSource e)
  | .ok [] => .ok (.skip .noUnits)
  | .ok units =>
    match targets? source overwrite units with
    | none => .error .misplaced
    | some [] => .ok (.skip .documented)
    | some targets => .ok (.document extension source targets)

/-- The plan for a file. -/
def Plan.ofFile (disk : Entry) (path : Text) (overwrite : Bool) : Except Failure Plan :=
  match Path.dialect? path with
  | none => .ok (.skip .unsupported)
  | some d =>
    match Disk.read disk path with
    | .error f => .error (.disk f)
    | .ok source => Plan.ofSource d ((Path.extension? path).getD []) source overwrite

namespace Session

/-- Makes the edit for the target `index` out of `total`. -/
def editFor (g : Option Generator) (path extension source : Text) (total index : Nat) (t : Target)
    (s : Session) : Edit × Session :=
  let s := s.record (.started path t.unit.name index total)
  let (block, s) := s.describe g extension source { t.unit with summary := t.unit.summarize } t.indent
  (⟨t.unit.name, t.point, t.replaceFrom, block⟩, s)

/-- Makes the edits for targets, the first of which is `index` out of `total`. -/
def editsFor (g : Option Generator) (path extension source : Text) (total : Nat) :
    Nat → List Target → Session → List Edit × Session
  | _, [], s => ([], s)
  | index, t :: ts, s =>
    let (e, s) := s.editFor g path extension source total index t
    let (es, s) := s.editsFor g path extension source total (index + 1) ts
    (e :: es, s)

/-- Makes the new text of a file with a generator. -/
def render (g : Option Generator) (overwrite : Bool) (path : Text) (s : Session) :
    Except Failure Rendering × Session :=
  match Plan.ofFile s.disk path overwrite with
  | .error f => (.error f, s)
  | .ok (.skip reason) => (.ok (.skipped reason), s)
  | .ok (.document extension source targets) =>
    let (edits, s) := s.editsFor g path extension source targets.length 1 targets
    match splice? source edits with
    | none => (.error .misplaced, s)
    | some spliced => (.ok (.rendered ⟨path, source, spliced.text, spliced.report⟩), s)

end Session

end DocBlocks
