import DocBlocks.Annotation.Commit

/-!
# Runs on a file

A file is rendered; then, if asked for, somebody decides; then the new text is shown or written.

## Main definitions

* `Outcome`: what a run on a file comes to.
* `Session.annotateFile`: a run on a file.
-/

namespace DocBlocks

/-- What a run on a file comes to. -/
inductive Outcome where
  | skipped (reason : Skip)
  /-- Nobody was there to decide. -/
  | undecided
  /-- The change was declined. -/
  | declined
  /-- The new text is shown and not written. -/
  | previewed (count : Nat) (text : Text)
  /-- The new text is written. -/
  | committed (count : Nat)
  deriving DecidableEq, Repr, Inhabited

namespace Outcome

/-- Whether there is a new text. -/
def changed : Outcome → Bool
  | previewed .. | committed _ => true
  | _ => false

/-- The new text, if it was not written. -/
def text? : Outcome → Option Text
  | previewed _ t => some t
  | _ => none

/-- The number of units that got a comment. -/
def count : Outcome → Nat
  | previewed n _ | committed n => n
  | _ => 0

/-- The outcome in words. -/
def reason : Outcome → Text
  | skipped r => r.reason
  | undecided => "Change not approved: no approval handler available".toList
  | declined => "Change not approved".toList
  | previewed n _ => "Dry run: ".toList ++ Nat.toDigits 10 n ++ " function(s) would be documented".toList
  | committed n => "Documented ".toList ++ Nat.toDigits 10 n ++ " function(s)".toList

end Outcome

/-- The question about the new text of a file. -/
def Rendered.proposal (r : Rendered) (preview : Bool) : Proposal :=
  ⟨r.path, r.report, r.original, r.text, preview⟩

namespace Session

/-- Shows or writes the new text of a file. -/
def finish (o : Options) (r : Rendered) (s : Session) : Except Failure Outcome × Session :=
  if o.preview then (.ok (.previewed r.count r.text), s)
  else
    match s.commit r with
    | (.error f, s) => (.error f, s)
    | (.ok (), s) => (.ok (.committed r.count), s)

/-- Has somebody decide about the new text of a file, if asked for, and goes on if it is
accepted. -/
def settle (o : Options) (r : Rendered) (s : Session) : Except Failure Outcome × Session :=
  if o.interactive then
    match s.consult (r.proposal o.preview) with
    | (none, s) => (.ok .undecided, s)
    | (some false, s) => (.ok .declined, s)
    | (some true, s) => s.finish o r
  else s.finish o r

/-- A run on a file with a generator. -/
def annotateWith (g : Option Generator) (o : Options) (path : Text) (s : Session) :
    Except Failure Outcome × Session :=
  match s.render g o.overwrite path with
  | (.error f, s) => (.error f, s)
  | (.ok (.skipped reason), s) => (.ok (.skipped reason), s)
  | (.ok (.rendered r), s) => s.settle o r

/-- A run on a file. -/
def annotateFile (c : Config) (o : Options) (path : Text) (s : Session) : Except Failure Outcome × Session :=
  s.annotateWith (s.generator? c o) o path

end Session

end DocBlocks
