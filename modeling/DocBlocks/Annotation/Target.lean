import DocBlocks.Comment.Preceding
import DocBlocks.Placement
import DocBlocks.Splice

/-!
# Targets

Which units of a source get a comment, and where it goes. Units whose comments go to one place share
the comments that already stand above it.

## Main definitions

* `Placed`: a unit with the place of its comment.
* `Target`: a unit that gets a comment.
* `targets?`: the targets among the units of a source.
-/

namespace DocBlocks

/-- A unit with the place of its comment and the indentation there. -/
structure Placed where
  unit : CodeUnit
  point : Nat
  indent : Text
  deriving DecidableEq, Repr, Inhabited

/-- A unit that gets a comment. -/
structure Target extends Placed where
  /-- The start of the text that the comment replaces; equal to `point` if it replaces none. -/
  replaceFrom : Nat
  deriving DecidableEq, Repr, Inhabited

/-- A unit of a source with the place of its comment. There is none if the source cannot be cut
where the unit starts. -/
def Placed.of? (source : Text) (u : CodeUnit) : Option Placed := do
  let point ← insertionPoint? source u.shape u.span.start
  return ⟨u, point, ← indentationAt? source point⟩

/-- The comments that already stand above a place, at most one for each unit that has its place
there. -/
def standing? (source : Text) (points : List Nat) (point : Nat) : Option Span :=
  precedingRun? source point (points.count point)

/-- The targets among placed units. `points` are the places of all units of the source, and
`claimed` those whose standing comments are replaced already. Standing comments make a unit no
target unless they are to be replaced; the first unit at a place replaces all of them. -/
def targetsAmong (source : Text) (overwrite : Bool) (points : List Nat) : List Nat → List Placed → List Target
  | _, [] => []
  | claimed, p :: rest =>
    match standing? source points p.point with
    | none => { p with replaceFrom := p.point } :: targetsAmong source overwrite points claimed rest
    | some run =>
      if overwrite then
        { p with replaceFrom := if claimed.contains p.point then p.point else run.start } ::
          targetsAmong source overwrite points (p.point :: claimed) rest
      else targetsAmong source overwrite points claimed rest

/-- The targets among the units of a source. There is no answer if the source cannot be cut where a
unit starts. -/
def targets? (source : Text) (overwrite : Bool) (units : List CodeUnit) : Option (List Target) := do
  let placed ← units.mapM (Placed.of? source)
  return targetsAmong source overwrite (placed.map Placed.point) [] placed

end DocBlocks
