import DocBlocks.Grammar.Parenthesis
import DocBlocks.Grammar.Class
import DocBlocks.Grammar.Markup

/-!
# Expressions

An expression is an operand that grows to the right as long as the next operator binds tightly
enough for the place where the expression stands. Where a line break may end the statement around
it, growing stops there.

An assignment, an arrow function or a `yield` may stand as the operand of any operator, since
nothing else could be meant.

## Main definitions

* `operand`: an expression up to its first operator.
* `grow`: one more operator.
* `expression`, `expressions`: one expression; several with commas between them.
-/

namespace DocBlocks.Grammar

open Syntax

/-! ## Operators -/

/-- The punctuation that may follow an operand, longest first. -/
def punctuators : List String :=
  [">>>=", "<<=", ">>=", ">>>", "**=", "&&=", "||=", "??=", "===", "!==",
    "=>", "==", "!=", "<=", ">=", "&&", "||", "??", "?.", "**", "++", "--", "<<", ">>",
    "+=", "-=", "*=", "/=", "%=", "&=", "|=", "^=",
    "(", "[", "`", ".", "?", "=", "!", "<", ">", "+", "-", "*", "/", "%", "&", "|", "^"]

/-- The punctuation at the start of a text. -/
def punctuator? (t : Text) : Option String :=
  punctuators.find? fun s => s.toList.isPrefixOf t

/-- The level of a binary operator, and the level its right operand is read at. -/
def binaryLevel? (s : String) : Option (Nat × Nat) :=
  if s = "??" then some (3, 4)
  else if s = "||" then some (4, 5)
  else if s = "&&" then some (5, 6)
  else if s = "|" then some (6, 7)
  else if s = "^" then some (7, 8)
  else if s = "&" then some (8, 9)
  else if ["==", "===", "!=", "!=="].contains s then some (9, 10)
  else if ["<", "<=", ">", ">=", "in", "instanceof"].contains s then some (10, 11)
  else if ["<<", ">>", ">>>"].contains s then some (11, 12)
  else if s = "+" ∨ s = "-" then some (12, 13)
  else if ["*", "/", "%"].contains s then some (13, 14)
  else if s = "**" then some (14, 14)
  else none

/-- The operators that assign a computed value. -/
def augmented : List String :=
  ["+=", "-=", "*=", "/=", "%=", "^=", "&=", "|=", ">>=", ">>>=", "<<=", "**=", "&&=", "||=", "??="]

/-- The kinds a template may directly follow. -/
def isPrimary : Kind → Bool
  | .subscriptExpression | .memberExpression | .parenthesizedExpression | .identifier | .undefined | .this | .super
  | .number | .string | .templateString | .regex | .true | .false | .null | .object | .array
  | .functionExpression | .generatorFunction | .classExpression | .metaProperty | .callExpression
  | .nonNullExpression | .newExpression => true
  | _ => false

/-- The kinds that may stand left of `=`. -/
def isAssignable : Kind → Bool
  | .identifier | .undefined | .memberExpression | .subscriptExpression | .nonNullExpression | .object | .array
  | .parenthesizedExpression => true
  | _ => false

/-- The kinds that may stand left of an operator such as `+=`. -/
def isUpdatable : Kind → Bool
  | .identifier | .memberExpression | .subscriptExpression | .nonNullExpression | .parenthesizedExpression => true
  | _ => false

/-- Whether the last tree is of a kind in a class. -/
def endsWith (p : Kind → Bool) (forest : List Tree) : Bool :=
  (head? forest).any fun t => t.kind?.any p

/-- Whether the question mark that starts a text begins a conditional expression. A mark before a
dot does so only if a digit follows; in a typed dialect a mark before `:`, `)` or `,` belongs to a
parameter. -/
def asksCondition (d : Dialect) : Text → Bool
  | '?' :: t =>
    let digitAfterDot (u : Text) : Bool :=
      match u with
      | '.' :: r => r.head?.any Char.isDigit
      | _ => true
    if t.head? = some '?' then false
    else if t.head? = some '.' then digitAfterDot t
    else if d.typed then
      let u := t.dropWhile isAsciiBlank
      if u.head?.any fun ch => ch = ':' || ch = ')' || ch = ',' then false else digitAfterDot u
    else true
  | _ => false

/-- Whether a text starts with a token that may start an operand. -/
def startsOperand (t : Text) : Bool :=
  match t with
  | [] => false
  | ch :: _ =>
    (isNameStart ch && (nameExcept? ["as", "satisfies", "in", "instanceof"] t).isSome) || ch.isDigit ||
      "'\"`[\x7b+-!~/<@#\\".toList.contains ch

/-! ## Operands -/

/-- Reads a prefix operator and its operand. -/
def prefixed (g : Rules) (place : Place) (kind : Kind) (level : Nat) (operator : Rule) : Rule :=
  node kind (seq [operator, g (.expression { place with level := level, heritage := false })])

/-- Reads `new` and what it makes. -/
def construction (d : Dialect) (g : Rules) (place : Place) : Rule :=
  let base := g (.expression { place with level := Level.constructed, heritage := false })
  oneOf [
    node .metaProperty (seq [word "new", token ".", word "target"]),
    node .newExpression (seq [word "new", base, if d.typed then opt (g .typeArguments) else done,
      opt (g .arguments)])]

/-- Reads an import on the spot, or the data about the running module. -/
def importOperand : Rule :=
  oneOf [
    node .metaProperty (seq [word "import", token ".", word "meta"]),
    seq [leafOf .importWord (word? "import".toList), whereSo (comesOneOf "(.")]]

/-- Reads `yield`. -/
def yielding (d : Dialect) (g : Rules) (place : Place) : Rule :=
  let value := g (.expression { place with level := Level.whole, heritage := false })
  node .yieldExpression (seq [word "yield", oneOf [
    seq [whereSo fun c => !(place.breaks && atLineEnd d true c), oneOf [seq [token "*", value], value]],
    done]])

/-- Reads an operand that starts with `async`. -/
def asyncOperand (d : Dialect) (g : Rules) (place : Place) : Rule :=
  let joined := whereSo fun c => !(place.breaks && atLineEnd d true c)
  oneOf [
    seq [ahead (seq [word "async", joined, word "function"]), functionExpression g],
    continueWith (seq [word "async", joined]) fun lead => oneOf [
      seq [whereSo (comes "("), listArrow d g place lead],
      seq [whereSo fun c => d.typed && comes "<" c, genericArrow d g place lead],
      namedArrow d g place lead]]

/-- Reads a name as an operand: the parameter of an arrow function, or an identifier. -/
def nameOperand (d : Dialect) (g : Rules) (place : Place) : Rule :=
  continueWith (operandIdentifier d) fun name => oneOf [
    seq [whereSo (comes "=>"), arrowTail g place (inRole .parameter name)],
    keeping name]

/-- Reads an operand that starts with the given word. -/
def wordOperand (d : Dialect) (g : Rules) (place : Place) (w : Text) : Rule :=
  let leaf (k : Kind) := leafOf k (word? w)
  let unary := prefixed g place .unaryExpression Level.unary (word (String.ofList w))
  if w = "function".toList then functionExpression g
  else if w = "async".toList then oneOf [asyncOperand d g place, nameOperand d g place]
  else if w = "class".toList then classExpression d g
  else if w = "new".toList then
    if d.typed then oneOf [construction d g place, nameOperand d g place] else construction d g place
  else if w = "import".toList then importOperand
  else if w = "await".toList then prefixed g place .awaitExpression Level.awaited (word "await")
  else if w = "yield".toList then yielding d g place
  else if w = "typeof".toList ∨ w = "void".toList ∨ w = "delete".toList then unary
  else if w = "this".toList then leaf .this
  else if w = "super".toList then leaf .super
  else if w = "true".toList then leaf .true
  else if w = "false".toList then leaf .false
  else if w = "null".toList then leaf .null
  else if w = "undefined".toList then leaf .undefined
  else if w = "using".toList then
    node .assignmentExpression (seq [word "using", role .left (target g), tokenAlone "=" "=>",
      role .right (g (.expression { place with level := Level.whole }))])
  else nameOperand d g place

/-- Reads an operand that starts with `<`. -/
def angleOperand (d : Dialect) (g : Rules) (place : Place) : Rule :=
  oneOf [
    if d.typed then genericArrow d g place [] else refuse,
    if d.markup then g .markup else refuse,
    if d = .typeScript then
      node .typeAssertion (seq [g .typeArguments, g (.expression { place with level := Level.unary })])
    else refuse]

/-- Reads an expression up to its first operator. -/
def operand (d : Dialect) (g : Rules) (place : Place) : Rule := fun c =>
  let t := upcoming c
  match name? t with
  | some (w, _) => wordOperand d g place w c
  | none =>
    match t with
    | [] => refuseNext c
    | ch :: r =>
      if ch = '(' then parenthesis d g place c
      else if ch = '[' then array g c
      else if ch = '\x7b' then g .object c
      else if ch = '"' ∨ ch = '\'' then stringLiteral c
      else if ch = Char.ofNat 0x60 then g .template c
      else if ch.isDigit ∨ (ch = '.' ∧ r.head?.any Char.isDigit) then number c
      else if ch = '/' then regex c
      else if ch = '<' then angleOperand d g place c
      else if ch = '@' then classExpression d g c
      else if ch = '#' then
        node .binaryExpression (seq [leafOf .privatePropertyIdentifier privateName?, word "in",
          g (.expression { place with level := 11 })]) c
      else if "++".toList.isPrefixOf t then prefixed g place .updateExpression 17 (token "++") c
      else if "--".toList.isPrefixOf t then prefixed g place .updateExpression 17 (token "--") c
      else if ch = '+' ∨ ch = '-' ∨ ch = '!' ∨ ch = '~' then
        prefixed g place .unaryExpression Level.unary (token (String.singleton ch)) c
      else refuseNext c

/-! ## Growing -/

/-- Reads the property behind a dot. -/
def property : Rule :=
  role .property (oneOf [leafOf .privatePropertyIdentifier privateName?, leafOf .propertyIdentifier name?])

/-- Reads an index in brackets. -/
def index (g : Rules) : Rule := between "[" (g (.expressions .enclosed)) "]"

/-- Reads what follows `?.`. -/
def optionalGrow (d : Dialect) (g : Rules) (place : Place) (left : List Tree) : Rule :=
  let mark := node .optionalChain (token "?.")
  oneOf [
    node .memberExpression (after (inRole .object left) (seq [mark, property])),
    node .subscriptExpression (after (inRole .object left) (seq [mark, index g])),
    if place.level < Level.constructed ∧ endsWith isPrimary left then
      node .callExpression (after (inRole .callee left) (seq [mark,
        if d.typed then opt (g .typeArguments) else done, g .arguments]))
    else refuse]

/-- Reads type arguments behind an expression, with the call they belong to if there is one. Behind
an operator that binds tighter than comparison they belong to the whole operation: `await f<T>(x)`
calls `await f`. -/
def typeArgumentsGrow (g : Rules) (place : Place) (left : List Tree) : Rule :=
  continueWith (after (inRole .callee left) (g .typeArguments)) fun applied => fun c =>
    if comes "(" c then node .callExpression (after applied (g .arguments)) c
    else if place.heritage || startsOperand (upcoming c) then refuse c
    else .accepted (wrap .instantiationExpression applied) c

/-- Reads a binary operator and its right operand. -/
def binaryGrow (g : Rules) (place : Place) (left : List Tree) (s : String) (operator : Rule) : Rule :=
  match binaryLevel? s with
  | some (level, rightLevel) =>
    if place.level ≤ level then
      node .binaryExpression (after (inRole .left left) (seq [operator,
        role .right (g (.expression { place with level := rightLevel, heritage := false }))]))
    else refuse
  | none => refuse

/-- Reads `?` and the two outcomes of a condition. The first outcome is read again, without result
types of arrow functions, if otherwise no colon follows it. -/
def conditionalGrow (d : Dialect) (g : Rules) (place : Place) (left : List Tree) : Rule :=
  let outcome (result : Bool) := seq [g (.expression { Place.enclosed with result := result }), token ":"]
  node .ternaryExpression (after left (seq [token "?",
    if d.typed then oneOf [outcome true, outcome false] else outcome true,
    g (.expression { place with level := Level.ternary, heritage := false })]))

/-- Reads `=` and the assigned value. -/
def assignmentGrow (g : Rules) (place : Place) (left : List Tree) : Rule :=
  let value := role .right (g (.expression { place with level := Level.whole, heritage := false }))
  let assign (left' : List Tree) := node .assignmentExpression (after (inRole .left left') (seq [token "=", value]))
  if endsWith (· = .parenthesizedExpression) left then assign left
  else continueWith (converting (keeping left) asTarget?) assign

/-- Reads an operator that is a word. -/
def wordGrow (d : Dialect) (g : Rules) (place : Place) (left : List Tree) (w : Text) : Rule :=
  if w = "in".toList then binaryGrow g place left "in" (word "in")
  else if w = "instanceof".toList then binaryGrow g place left "instanceof" (word "instanceof")
  else if d.typed ∧ Level.loose place.level ∧ w = "as".toList then
    node .asExpression (after left (seq [word "as", oneOf [word "const", g (.type place.breaks 1)]]))
  else if d.typed ∧ Level.loose place.level ∧ w = "satisfies".toList then
    node .satisfiesExpression (after left (seq [word "satisfies", g (.type place.breaks 1)]))
  else refuse

/-- Lets an expression reach further by the operator spelled `s`. -/
def punctuatorGrow (d : Dialect) (g : Rules) (place : Place) (left : List Tree) (s : String) (t : Text) : Rule :=
  if s = "." then
    node .memberExpression (after (inRole .object left) (seq [token ".", property]))
  else if s = "?." ∧ !asksCondition d t then optionalGrow d g place left
  else if s = "[" then node .subscriptExpression (after (inRole .object left) (index g))
  else if s = "(" then
    if place.level < Level.constructed then
      node .callExpression (after (inRole .callee left) (g .arguments))
    else refuse
  else if s = "`" then
    if endsWith isPrimary left then node .callExpression (after (inRole .callee left) (g .template)) else refuse
  else if s = "++" ∨ s = "--" then
    if place.level ≤ Level.update then node .updateExpression (after left (token s)) else refuse
  else if s = "!" then
    if d.typed ∧ (Level.loose place.level ∨ Level.target ≤ place.level) then
      node .nonNullExpression (after left (token "!"))
    else refuse
  else if s = "?" ∨ s = "?." then
    if place.level ≤ Level.ternary ∧ asksCondition d t then conditionalGrow d g place left else refuse
  else if s = "=" then
    if place.level < Level.target ∧ endsWith isAssignable left then assignmentGrow g place left else refuse
  else if augmented.contains s then
    if place.level < Level.target ∧ endsWith isUpdatable left then
      node .augmentedAssignmentExpression (after (inRole .left left) (seq [token s,
        role .right (g (.expression { place with level := Level.whole, heritage := false }))]))
    else refuse
  else if s = "<" then
    oneOf [if d.typed ∧ place.level ≤ Level.shifted then typeArgumentsGrow g place left else refuse,
      if place.heritage then refuse else binaryGrow g place left s (token s)]
  else binaryGrow g place left s (token s)

/-- Lets an expression reach further by one operator. -/
def grow (d : Dialect) (g : Rules) (place : Place) (left : List Tree) : Rule := fun c =>
  if place.breaks && atLineEnd d true c then refuse c
  else
    let t := upcoming c
    match name? t with
    | some (w, _) => wordGrow d g place left w c
    | none =>
      match punctuator? t with
      | some s => punctuatorGrow d g place left s t c
      | none => refuseNext c

/-- Reads an expression in its place. -/
def expression (d : Dialect) (g : Rules) (place : Place) : Rule :=
  continueWith (operand d g place) (growing (grow d g place))

/-- Reads expressions with commas between them. -/
def expressions (g : Rules) (place : Place) : Rule :=
  continueWith (g (.expression place)) fun first => oneOf [
    node .sequenceExpression (after first (many1 (seq [comma, g (.expression place)]))),
    keeping first]

end DocBlocks.Grammar
