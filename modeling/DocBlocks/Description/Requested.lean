import DocBlocks.Comment.Indented
import DocBlocks.Comment.Sanitized
import DocBlocks.Description.Block
import DocBlocks.Session

/-!
# Requested comments

The comment of a code unit can be asked of a generator. What the generator answers is used if a
comment can be made of it; otherwise the unit gets the comment made from what is known about it.

## Main definitions

* `CodeUnit.prompt`: the request for the comment of a unit.
* `Reply.comment?`: the comment in a reply.
* `Session.describe`: the comment of a unit.
-/

namespace DocBlocks

/-- The request for the comment of a unit of a source. -/
def CodeUnit.prompt (u : CodeUnit) (extension source : Text) : Prompt :=
  Prompt.forUnit extension u.name (u.parameters.map Parameter.name) (u.text source)

/-- The comment in a reply, behind an indentation. -/
def Reply.comment? (indent : Text) : Reply → Option Text
  | .text t => (Comment.sanitize? t).map fun comment => Comment.reindent comment indent
  | .nothing | .failed _ => none

/-- The comment of a unit of a source, asked of a generator if there is one. -/
def Session.describe (g : Option Generator) (extension source : Text) (u : CodeUnit) (indent : Text)
    (s : Session) : Text × Session :=
  match g with
  | none => (u.block indent, s)
  | some g =>
    let (reply, s) := s.ask g (u.prompt extension source)
    ((reply.comment? indent).getD (u.block indent), s)

end DocBlocks
