import DocBlocks.Grammar.Function

/-!
# Parentheses and arrows

What stands in parentheses is either an expression or the parameters of an arrow function, and only
what follows the closing parenthesis tells. So the parts are read once, in a form that covers both,
and then taken for the one or the other.

## Main definitions

* `covered`: the parts between parentheses.
* `asParameters?`, `asParenthesized?`: the two readings of them.
* `parenthesis`: an arrow function, or an expression in parentheses.
-/

namespace DocBlocks.Grammar

open Syntax

/-! ## The covering form -/

/-- Reads a part: an expression, possibly with the marks of a parameter. A marked part becomes a
parameter node whose pattern is still an expression. -/
def coveredPart (d : Dialect) (g : Rules) : Rule :=
  if d.typed then
    let rest := node .requiredParameter (seq [role .pattern (restTarget g), parameterTail g])
    oneOf [rest,
      continueWith (g (.expression .enclosed)) fun left =>
        let marked := inRole .pattern left
        oneOf [
          node .optionalParameter (after marked (seq [token "?", parameterTail g])),
          node .requiredParameter (after marked (seq [role .type (g (.typeAscription false)),
            opt (initializer g .enclosed)])),
          keeping left]]
  else oneOf [restTarget g, g (.expression .enclosed)]

/-- Reads the parts between parentheses, separated by commas. -/
def covered (d : Dialect) (g : Rules) : Rule :=
  between "(" (opt (seq [sepBy1 (coveredPart d g) comma, opt comma])) ")"

/-! ## The two readings -/

/-- The part as the pattern of a typed parameter. -/
def asTypedPattern? (t : Tree) : Option Tree :=
  if t.hasKind .this ∨ t.hasKind .restPattern then some t else asTarget? t

/-- The parts of a parameter node, its pattern read as one. -/
def patternPart? (t : Tree) : Option Tree :=
  if t.role = some .pattern then asTypedPattern? t else some t

/-- The part as a parameter of the untyped dialect. -/
def asPlainParameter? (t : Tree) : Option Tree :=
  if t.hasKind .restPattern then some t else (asPattern? t).filter fun p => !p.hasKind .spreadElement

/-- The part as a parameter of a typed dialect. -/
def asTypedParameter? : Tree → Option Tree
  | .mk (.node .requiredParameter) r m i j ps =>
    (ps.mapM patternPart?).map fun ps' => .mk (.node .requiredParameter) r m i j ps'
  | .mk (.node .optionalParameter) r m i j ps =>
    (ps.mapM patternPart?).map fun ps' => .mk (.node .optionalParameter) r m i j ps'
  | .mk (.node .assignmentExpression) r m i j ps =>
    (asPattern? (.mk (.node .assignmentExpression) r m i j ps)).map fun _ =>
      .mk (.node .requiredParameter) r m i j (ps.map fun p =>
        if p.role = some .left then p.withRole .pattern
        else if p.role = some .right then p.withRole .value
        else p)
  | t => (asTypedPattern? t).map fun p =>
      .mk (.node .requiredParameter) none false t.start t.stop [p.withRole .pattern]

/-- The parts in parentheses as the parameters of a function. -/
def asParameters? (d : Dialect) (forest : List Tree) : Option (List Tree) :=
  (forest.mapM fun t =>
    if t.isComment || !t.named then some t
    else if d.typed then asTypedParameter? t
    else asPlainParameter? t).map (wrap .formalParameters)

/-- The trees without their first and last one. -/
def inner (forest : List Tree) : List Tree := forest.tail.dropLast

/-- The trees as the parts of one node. Comments in front of it and behind it stay outside. -/
def wrapBetween (k : Kind) (forest : List Tree) : List Tree :=
  wrap k (forest.reverse.dropWhile Tree.isComment).reverse ++ (forest.reverse.takeWhile Tree.isComment).reverse

/-- The parts in parentheses as an expression. -/
def asParenthesized? (forest : List Tree) : Option (List Tree) :=
  let lead := forest.takeWhile Tree.isComment
  let body := forest.dropWhile Tree.isComment
  let parts := (inner body).filter fun t => !t.isComment
  let plain (t : Tree) : Bool :=
    !(t.hasKind .requiredParameter || t.hasKind .optionalParameter || t.hasKind .restPattern)
  match parts, body with
  | [t], opening :: _ =>
    if plain t then some (lead ++ wrap .parenthesizedExpression body)
    else if t.hasKind .requiredParameter ∧ (t.part? .value).isNone ∧ (t.part? .type).isSome then
      some (lead ++ wrap .parenthesizedExpression
        (opening :: (inner body).flatMap (fun p => if p.isComment then [p] else p.parts) ++ body.drop (body.length - 1)))
    else none
  | _ :: _ :: _, opening :: _ =>
    if parts.all plain ∧ !(parts.getLast?.any fun t => t.isToken ",") then
      some (lead ++ wrap .parenthesizedExpression
        (opening :: wrapBetween .sequenceExpression (inner body) ++ body.drop (body.length - 1)))
    else none
  | _, _ => none

/-! ## Arrow functions -/

/-- Reads with the rule that some trees ask for, if there is one. -/
def given (found : Option (List Tree)) (f : List Tree → Rule) : Rule :=
  match found with
  | some forest => f forest
  | none => refuseNext

/-- Whether a block holds a labeled statement, so that it may be an object literal instead. -/
def holdsLabel (forest : List Tree) : Bool :=
  (head? forest).any fun t => t.parts.any fun p => p.hasKind .labeledStatement

/-- Reads a block, or with `literal` what starts with an object literal. Where both accept, a block
that holds a label gives way. -/
def blockOr (block literal : Rule) : Rule := fun c =>
  match block c with
  | .refused seen => literal { c with seen := seen }
  | .accepted forest next =>
    if holdsLabel forest then
      match literal c with
      | .accepted forest' next' =>
        if next.offset ≤ next'.offset then .accepted forest' next' else .accepted forest next
      | .refused _ => .accepted forest next
    else .accepted forest next

/-- Reads the arrow and the body of an arrow function whose head has been read. -/
def arrowTail (g : Rules) (place : Place) (headTrees : List Tree) : Rule :=
  let expression := g (.expression { place with level := Level.whole, heritage := false })
  node .arrowFunction (after headTrees (seq [token "=>",
    role .body (seq [oneOf [
      seq [whereSo (comes "\x7b"), blockOr (g (.block true)) expression],
      seq [whereSo fun c => !comes "\x7b" c, expression]]])]))

/-- Reads the rest of an arrow function whose parameters have been read: what it returns, and its
body. -/
def arrowRest (d : Dialect) (g : Rules) (place : Place) (headTrees : List Tree) : Rule :=
  oneOf [arrowTail g place headTrees,
    seq [whereSo fun c => d.typed && place.result && comes ":" c,
      continueWith (role .returnType (resultAscription d g false)) fun result =>
        arrowTail g place (headTrees ++ result)]]

/-- Reads an arrow function with type parameters. -/
def genericArrow (d : Dialect) (g : Rules) (place : Place) (lead : List Tree) : Rule :=
  continueWith (seq [g .typeParameters, role .parameters (g .parameters)]) fun headTrees =>
    arrowRest d g place (lead ++ headTrees)

/-- Reads an arrow function whose only parameter is a bare name. -/
def namedArrow (d : Dialect) (g : Rules) (place : Place) (lead : List Tree) : Rule :=
  continueWith (role .parameter (operandIdentifier d)) fun name => arrowTail g place (lead ++ name)

/-- Reads an arrow function with parameters in parentheses. -/
def listArrow (d : Dialect) (g : Rules) (place : Place) (lead : List Tree) : Rule :=
  continueWith (covered d g) fun forest =>
    given (asParameters? d forest) fun params => arrowRest d g place (lead ++ inRole .parameters params)

/-- Reads an arrow function, or an expression in parentheses. -/
def parenthesis (d : Dialect) (g : Rules) (place : Place) : Rule :=
  continueWith (covered d g) fun forest => oneOf [
    given (asParameters? d forest) fun params => arrowRest d g place (inRole .parameters params),
    given (asParenthesized? forest) keeping]

end DocBlocks.Grammar
