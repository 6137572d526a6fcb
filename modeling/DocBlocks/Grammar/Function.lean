import DocBlocks.Grammar.TypeExpression

/-!
# Functions

What functions take and return, function expressions, and methods.

## Main definitions

* `parameters`, `signature`: the parameters of a function; in a typed dialect also its type
  parameters and what it returns.
* `functionExpression`: a function that stands for a value.
* `method`: a method of a class or of an object literal.
-/

namespace DocBlocks.Grammar

open Syntax

/-- Reads `=` and an initial value. -/
def initializer (g : Rules) (place : Place) : Rule :=
  seq [tokenAlone "=" "=>", role .value (g (.expression place))]

/-- Reads a parameter of the untyped dialect. -/
def plainParameter (g : Rules) : Rule :=
  continueWith (pattern g) fun left => oneOf [
    node .assignmentPattern (after (inRole .left left)
      (seq [tokenAlone "=" "=>", role .right (g (.expression .enclosed))])),
    keeping left]

/-- Reads what follows the name of a typed parameter: its type and its default. -/
def parameterTail (g : Rules) : Rule :=
  seq [opt (role .type (g (.typeAscription false))), opt (initializer g .enclosed)]

/-- Reads a parameter of a typed dialect. -/
def typedParameter (d : Dialect) (g : Rules) : Rule :=
  continueWith
    (seq [many (g .decorator), opt (accessibility d false),
      opt (node .overrideModifier (modifier d false "override")), opt (modifier d false "readonly"),
      role .pattern (oneOf [
        seq [leafOf .this (word? "this".toList), whereSo fun c => !comesOneOf ".[(" c], pattern g])])
    fun left => oneOf [
      node .optionalParameter (after left (seq [token "?", parameterTail g])),
      node .requiredParameter (after left (parameterTail g))]

/-- Reads the parameters of a function, with their parentheses. -/
def parameters (d : Dialect) (g : Rules) : Rule :=
  let parameter := if d.typed then typedParameter d g else plainParameter g
  node .formalParameters (between "(" (opt (seq [sepBy1 parameter comma, opt comma])) ")")

/-- Reads what a function takes and returns. -/
def signature (d : Dialect) (g : Rules) (breaks : Bool) : Rule :=
  if d.typed then
    seq [opt (g .typeParameters), role .parameters (g .parameters),
      opt (role .returnType (resultAscription d g breaks))]
  else role .parameters (g .parameters)

/-- Reads a function that stands for a value. -/
def functionExpression (g : Rules) : Rule :=
  let tail := seq [opt (role .name identifier), g (.signature false), role .body (g (.block true))]
  let head := seq [opt (word "async"), word "function"]
  oneOf [node .generatorFunction (seq [head, token "*", tail]), node .functionExpression (seq [head, tail])]

/-- The words `static get` with a line break behind them, which are one token. -/
def staticGet? : Recogniser := fun t =>
  match word? "static".toList t with
  | some (_, rest) =>
    let gap := rest.takeWhile isAsciiBlank
    match word? "get".toList (rest.dropWhile isAsciiBlank) with
    | some (_, behind) =>
      let blanks := behind.takeWhile isAsciiBlank
      let upToBreak := (blanks.reverse.dropWhile (· ≠ '\n')).reverse
      if upToBreak.isEmpty then none
      else some ("static".toList ++ gap ++ "get".toList ++ upToBreak, behind.drop upToBreak.length)
    | none => none
  | none => none

/-- Reads a method with its body. -/
def method (d : Dialect) (g : Rules) (inClass : Bool) : Rule :=
  let body := role .body (g (.block false))
  if d.typed then
    node .methodDefinition
      (seq [methodHead d g inClass (if inClass then typedPropertyName g else g .propertyName), body])
  else
    node .methodDefinition (seq [if inClass then many (g .decorator) else done,
      opt (oneOf [lexeme staticGet? (.token "static get"), modifier d inClass "static"]),
      opt (modifier d inClass "async"), opt (accessor d inClass),
      role .name (g .propertyName), g (.signature false), body])

end DocBlocks.Grammar
