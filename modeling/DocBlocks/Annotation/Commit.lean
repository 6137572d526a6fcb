import DocBlocks.Annotation.Rendering

/-!
# Commits

The new text of a file is written only while the file is what it was when the text was made.
-/

namespace DocBlocks

/-- The disk with the new text of a file written, unless the system refuses the write. -/
def Rendered.commit (r : Rendered) (disk : Entry) (refusal : Option Disk.Fault) : Except Failure Entry :=
  match Disk.read disk r.path with
  | .error f => .error (.disk f)
  | .ok content =>
    match ensureUnchanged r.fingerprint content with
    | .error m => .error (.changed m)
    | .ok () => (Disk.write disk r.path r.text refusal).mapError .disk

namespace Session

/-- What the system has against the next write. -/
def refusal (s : Session) : Option Disk.Fault := s.refusals.headD none

/-- Writes the new text of a file. -/
def commit (r : Rendered) (s : Session) : Except Failure Unit × Session :=
  match r.commit s.disk s.refusal with
  | .error f => (.error f, { s with refusals := s.refusals.tail })
  | .ok disk => (.ok (), { s with disk := disk, refusals := s.refusals.tail })

end Session

end DocBlocks
