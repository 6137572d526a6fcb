import DocBlocks.Grammar.Goal

/-!
# Patterns

Up to the `=` or `=>` behind it, a pattern reads like an expression. So patterns are read as
expressions and then reinterpreted: an object literal becomes an object pattern, an assignment
inside it a default, a spread element a rest pattern. What has no reading as a pattern is refused.

## Main definitions

* `asPattern?`: the reinterpretation.
* `target`: what may stand left of `=`, read as a pattern.
* `binding`: what a declaration binds.
-/

namespace DocBlocks.Grammar

open Syntax

mutual

/-- The tree read as a pattern, or as a part of one. -/
def asPattern? : Tree → Option Tree
  | .mk (.token s) r m i j ps => some (.mk (.token s) r m i j ps)
  | .mk (.node k) r m i j ps =>
    let same := some (Tree.mk (.node k) r m i j ps)
    let under (k' : Kind) := (allAsPattern? ps).map fun ps' => Tree.mk (.node k') r m i j ps'
    if r = some .name then same
    else
      match k with
      | .comment | .htmlComment | .identifier | .undefined | .memberExpression | .subscriptExpression
      | .nonNullExpression | .objectPattern | .arrayPattern | .objectAssignmentPattern => same
      | .shorthandPropertyIdentifier => some (.mk (.node .shorthandPropertyIdentifierPattern) r m i j ps)
      | .object => under .objectPattern
      | .array => under .arrayPattern
      | .pair => under .pairPattern
      | .spreadElement => under .restPattern
      | .assignmentExpression =>
        if (ps.find? fun p => p.role = some .left).any fun p => p.hasKind .parenthesizedExpression then none
        else some (.mk (.node .assignmentPattern) r m i j ps)
      | _ => none

/-- All trees read as parts of a pattern. -/
def allAsPattern? : List Tree → Option (List Tree)
  | [] => some []
  | t :: ts =>
    match asPattern? t, allAsPattern? ts with
    | some t', some ts' => some (t' :: ts')
    | _, _ => none

end

/-- The tree read as a pattern that binds or assigns one value, without a default. -/
def asTarget? (t : Tree) : Option Tree :=
  (asPattern? t).filter fun p => !(p.hasKind .assignmentPattern || p.hasKind .restPattern)

/-- Reads what may stand left of `=`; a parenthesis does not start it. -/
def target (g : Rules) : Rule :=
  seq [whereSo fun c => !comes "(" c,
    converting (g (.expression { level := Level.target, breaks := false })) asTarget?]

/-- Reads three dots and what takes the remaining values. -/
def restTarget (g : Rules) : Rule := node .restPattern (seq [token "...", target g])

/-- Reads a pattern: a target, or a rest pattern. -/
def pattern (g : Rules) : Rule := oneOf [restTarget g, target g]

/-- Reads an object or array pattern. -/
def destructuring (g : Rules) : Rule :=
  seq [whereSo (comesOneOf "\x7b["),
    converting (g (.expression { level := Level.target, breaks := false })) fun t =>
      (asTarget? t).filter fun p => p.hasKind .objectPattern || p.hasKind .arrayPattern]

/-- Reads what a declaration binds: any name, or an object or array pattern. -/
def binding (g : Rules) : Rule := oneOf [identifier, destructuring g]

end DocBlocks.Grammar
