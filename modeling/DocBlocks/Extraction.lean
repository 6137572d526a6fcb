import DocBlocks.CodeUnit
import DocBlocks.Text.Blank
import DocBlocks.Grammar.Fault

/-!
# Extraction

Finds the code units of a source. The body of a unit is not searched for further units, so the units
found are the outermost ones.

## Main definitions

* `unitsIn`: the outermost units of a syntax tree.
* `calledIn`: the names called in a tree.
* `extract`: the units of a source, or the line of its first syntax error.
-/

namespace DocBlocks

open Syntax

namespace Extraction

/-- The text a tree covers. -/
def textOf (source : Text) (t : Tree) : Text :=
  (source.slice? t.start t.stop).getD []

/-- A type as written, without the colon in front of it. -/
def typeText (source : Text) (t : Tree) : Text :=
  match Text.trim (textOf source t) with
  | ':' :: rest => Text.trim rest
  | text => Text.trim text

/-! ## Calls -/

/-- The name of what a call calls: an identifier, or a property with the name of its object. Objects
without a plain name are written `obj`, properties without one `call`. -/
def calleeName? (source : Text) (callee : Tree) : Option Text :=
  if callee.hasKind .identifier then some (textOf source callee)
  else if callee.hasKind .memberExpression then
    let object :=
      match callee.part? .object with
      | some o =>
        if o.hasKind .identifier then textOf source o
        else if o.hasKind .this then "this".toList
        else "obj".toList
      | none => "obj".toList
    let property :=
      match callee.part? .property with
      | some p => if p.hasKind .propertyIdentifier then textOf source p else "call".toList
      | none => "call".toList
    some (object ++ '.' :: property)
  else none

/-- The name that a node calls, if it is a call. -/
def calledBy? (source : Text) (t : Tree) : Option Text :=
  if t.hasKind .callExpression then (t.part? .callee).bind (calleeName? source) else none

/-- A list with a name added at its end, unless it is in the list. -/
def addName (names : List Text) (name : Text) : List Text :=
  if names.contains name then names else names ++ [name]

mutual

/-- Adds the names called in a tree, in pre-order through its named nodes, to those already
found. -/
def calledIn (source : Text) (found : List Text) : Tree → List Text
  | .mk l r m s e ps =>
    calledAmong source (((calledBy? source (.mk l r m s e ps)).map (addName found)).getD found) ps

/-- Adds the names called in the named trees of a list to those already found. -/
def calledAmong (source : Text) (found : List Text) : List Tree → List Text
  | [] => found
  | t :: ts => calledAmong source (if t.named then calledIn source found t else found) ts

end

/-! ## Parameters -/

/-- What is written for the target of a rest parameter. -/
def restName (source : Text) (t : Tree) : Text :=
  match t.namedParts.head? with
  | some p => if p.hasKind .identifier then "...".toList ++ textOf source p else "...args".toList
  | none => "...args".toList

mutual

/-- The parameter that a tree declares. -/
def parameterOf (source : Text) : Tree → Parameter
  | .mk l r m s e ps =>
    let t := Tree.mk l r m s e ps
    match t.kind? with
    | some .objectPattern => { name := "\x7b...\x7d".toList }
    | some .arrayPattern => { name := "[...]".toList }
    | some .restPattern => { name := restName source t }
    | some .assignmentPattern =>
      { (parameterIn source .left ps).getD { name := textOf source t } with
        default := (t.part? .right).map (textOf source) }
    | some .requiredParameter | some .optionalParameter =>
      let inner := (parameterIn source .pattern ps).getD { name := textOf source t }
      { inner with
        type := (t.part? .type).map (typeText source)
        default := ((t.part? .value).map (textOf source)).or inner.default }
    | _ => { name := textOf source t }

/-- The parameter that the first tree in a role declares. -/
def parameterIn (source : Text) (role : Role) : List Tree → Option Parameter
  | [] => none
  | t :: ts => if t.role = some role then some (parameterOf source t) else parameterIn source role ts

end

/-- The parameters of a function. -/
def parametersOf (source : Text) (t : Tree) : List Parameter :=
  match t.part? .parameters with
  | some params =>
    (params.namedParts.filter fun p => !p.hasKind .comment).map (parameterOf source)
  | none =>
    match t.part? .parameter with
    | some single => [parameterOf source single]
    | none => []

/-! ## Units -/

/-- The unit that a tree stands for. -/
def unitOf (source : Text) (name : Text) (shape : CodeUnit.Shape) (t : Tree) : CodeUnit where
  name := name
  shape := shape
  parameters := parametersOf source t
  returnType := (t.part? .returnType).map (typeText source)
  span := ⟨t.start, t.stop⟩
  isAsync := t.parts.any fun p => p.isToken "async"
  called :=
    match t.part? .body with
    | some body => (calledIn source [] body).take CodeUnit.maxCalled
    | none => []

/-- The unit that a part of a node of kind `parent` is, if it is one. -/
def unit? (source : Text) (parent : Option Kind) (t : Tree) : Option CodeUnit :=
  match t.kind? with
  | some .functionDeclaration | some .generatorFunctionDeclaration =>
    let name := ((t.part? .name).map (textOf source)).getD CodeUnit.anonymous
    some (unitOf source name .function t)
  | some .methodDefinition =>
    if parent = some .classBody then
      let name := (((t.part? .name).filter (Tree.hasKind · .propertyIdentifier)).map (textOf source)).getD
        CodeUnit.anonymous
      some (unitOf source name .method t)
    else none
  | some .variableDeclarator =>
    match t.part? .name, t.part? .value with
    | some name, some value =>
      if name.hasKind .identifier ∧ value.hasKind .arrowFunction then
        some (unitOf source (textOf source name) .arrow value)
      else none
    | _, _ => none
  | _ => none

mutual

/-- The outermost units below the root of a tree, in source order. -/
def unitsIn (source : Text) : Tree → List CodeUnit
  | .mk l r m s e ps => unitsAmong source (Tree.mk l r m s e []).kind? ps

/-- The outermost units among the parts of a node of kind `parent`. -/
def unitsAmong (source : Text) (parent : Option Kind) : List Tree → List CodeUnit
  | [] => []
  | t :: ts =>
    let here :=
      if t.named then
        match unit? source parent t with
        | some u => [u]
        | none => unitsIn source t
      else []
    here ++ unitsAmong source parent ts

end

end Extraction

/-- A source that its dialect refuses, and the line of the first error. -/
structure SyntaxError where
  line : Nat
  dialect : Dialect
  deriving DecidableEq, Repr, Inhabited

/-- The text of a syntax error. -/
def SyntaxError.message (e : SyntaxError) : String :=
  "Syntax error near line " ++ toString e.line ++ " (" ++ e.dialect.name ++ " grammar)"

/-- The number of the line that holds a byte, counted from 0. -/
def rowAt : Text → Nat → Nat
  | [], _ => 0
  | c :: t, n => if n < c.utf8Size then 0 else (if c = '\n' then 1 else 0) + rowAt t (n - c.utf8Size)

/-- The tree the units are taken from. A source of the untyped dialect that its grammar refuses is
read as TSX instead, if that accepts it. -/
def syntaxTree (d : Dialect) (source : Text) : Tree :=
  let tree := Grammar.parse d source
  if tree.hasError ∧ d = .javaScript then
    let typed := Grammar.parse .tsx source
    if typed.hasError then tree else typed
  else tree

/-- The outermost code units of a source, in source order. -/
def extract (d : Dialect) (source : Text) : Except SyntaxError (List CodeUnit) :=
  let tree := syntaxTree d source
  if tree.hasError then
    .error { line := ((tree.firstFault?.map (rowAt source)).getD 0) + 1, dialect := d }
  else .ok (Extraction.unitsIn source tree)

end DocBlocks
