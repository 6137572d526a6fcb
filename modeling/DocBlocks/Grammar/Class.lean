import DocBlocks.Grammar.Function

/-!
# Classes

Class bodies, what a class extends and implements, and decorators.

## Main definitions

* `classBody`: the members of a class between braces.
* `classTail`: what follows the name of a class.
* `classExpression`: a class that stands for a value.
* `decorator`: a mark in front of a class or a member.
-/

namespace DocBlocks.Grammar

open Syntax

/-! ## Decorators -/

/-- Lets the name in a decorator reach further by one member. -/
def decoratorGrow (left : List Tree) : Rule :=
  node .memberExpression (after (inRole .object left)
    (seq [token ".", role .property (leafOf .propertyIdentifier name?)]))

/-- Reads what a decorator applies. -/
def decoratorTarget (d : Dialect) (g : Rules) : Rule :=
  continueWith (continueWith identifier (growing decoratorGrow)) fun left => oneOf [
    node .callExpression (after (inRole .callee left)
      (seq [if d.typed then opt (g .typeArguments) else done, g .arguments])),
    keeping left]

/-- Reads a decorator. -/
def decorator (d : Dialect) (g : Rules) : Rule :=
  node .decorator (seq [token "@", oneOf [decoratorTarget d g,
    if d.typed then node .parenthesizedExpression (between "(" (decoratorTarget d g) ")") else refuse]])

/-! ## Heads -/

/-- Reads what a class extends and implements. -/
def heritage (d : Dialect) (g : Rules) : Rule :=
  if d.typed then
    let implementing := node .implementsClause (seq [word "implements", sepBy1 (g (.type false 1)) comma])
    let base := seq [role .value (g (.expression { Place.enclosed with heritage := true })),
      opt (g .typeArguments)]
    node .classHeritage (oneOf [
      seq [node .extendsClause (seq [word "extends", sepBy1 base comma]), opt implementing],
      implementing])
  else node .classHeritage (seq [word "extends", g (.expression .enclosed)])

/-- Reads what follows the name of a class. -/
def classTail (d : Dialect) (g : Rules) : Rule :=
  seq [if d.typed then opt (g .typeParameters) else done, opt (heritage d g), role .body (g .classBody)]

/-- Reads the name of a class. -/
def className (d : Dialect) : Rule :=
  role .name (leafOf (if d.typed then .typeIdentifier else .identifier)
    (nameExcept? (if d.typed then ["extends", "implements"] else ["extends"])))

/-- Reads a class that stands for a value. -/
def classExpression (d : Dialect) (g : Rules) : Rule :=
  node .classExpression (seq [many (g .decorator), word "class", opt (className d), classTail d g])

/-! ## Bodies -/

/-- Reads a block that runs when the class is made. -/
def staticBlock (d : Dialect) (g : Rules) : Rule :=
  node .classStaticBlock (seq [word "static", whereSo (fun c => !atLineEnd d false c),
    role .body (g (.block false))])

/-- Reads a field of the untyped dialect, up to its initial value, and the end of the field. -/
def plainField (d : Dialect) (g : Rules) : Rule :=
  let head := seq [many (g .decorator), opt (modifier d true "static"), role .name (g .propertyName)]
  continueWith
    (continueWith head fun left => oneOf [
      node .fieldDefinition (after left (initializer g .inStatement)),
      node .fieldDefinition (keeping left)])
    fun field => after field (endOfStatement d ((head? field).any fun t => (t.part? .value).isSome))

/-- Reads a member of a class in the untyped dialect. -/
def plainMember (d : Dialect) (g : Rules) : Rule :=
  oneOf [token ";", staticBlock d g, seq [g (.method true), opt (token ";")], plainField d g]

/-- Reads the end of a member without body; a brace on the next line does not end it. -/
def signatureEnd (d : Dialect) : Rule :=
  oneOf [lineEnd d false true, token ";", comma]

/-- Reads the modifiers of a typed field. -/
def fieldModifiers (d : Dialect) : Rule :=
  let m := modifier d true
  seq [
    opt (oneOf [seq [m "declare", opt (accessibility d true)], seq [accessibility d true, opt (m "declare")]]),
    oneOf [
      seq [m "abstract", opt (m "readonly")],
      seq [m "readonly", m "abstract"],
      m "accessor",
      seq [opt (m "static"), opt (node .overrideModifier (m "override")), opt (m "readonly")]]]

/-- Reads a field of a typed class, without its end. -/
def typedField (d : Dialect) (g : Rules) : Rule :=
  node .publicFieldDefinition (seq [many (g .decorator), fieldModifiers d, role .name (typedPropertyName g),
    opt (oneOf [token "?", token "!"]), opt (g (.typeAscription true)), opt (initializer g .inStatement)])

/-- Reads the head of an abstract method. -/
def abstractMethod (d : Dialect) (g : Rules) : Rule :=
  node .abstractMethodSignature (seq [opt (accessibility d true), modifier d true "abstract",
    opt (node .overrideModifier (modifier d true "override")), opt (accessor d true),
    role .name (typedPropertyName g), opt (token "?"), g (.signature true)])

/-- Reads a member of a class in a typed dialect. -/
def typedMember (d : Dialect) (g : Rules) : Rule :=
  let fieldTerminated := continueWith (typedField d g) fun field =>
    after field (oneOf [
      endOfStatement d ((head? field).any fun t => (t.part? .value).isSome), comma])
  oneOf [token ";", staticBlock d g,
    seq [many (g .decorator), g (.method true), opt (endOfStatement d false)],
    seq [abstractMethod d g, signatureEnd d],
    seq [node .methodSignature (methodHead d g true (typedPropertyName g)), signatureEnd d],
    seq [indexSignature g, oneOf [endOfStatement d false, comma]],
    fieldTerminated]

/-- Reads the body of a class. -/
def classBody (d : Dialect) (g : Rules) : Rule :=
  node .classBody (between "\x7b" (many (item (if d.typed then typedMember d g else plainMember d g))) "\x7d")

end DocBlocks.Grammar
