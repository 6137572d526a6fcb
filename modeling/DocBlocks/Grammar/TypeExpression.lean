import DocBlocks.Grammar.Pattern
import DocBlocks.Grammar.Literal

/-!
# Types

The type expressions of the typed dialects: what may follow a colon, stand between `<` and `>`, or
make up an interface.

A line break can end a type where the statement around it may end; `breaks` says so. The binding
levels are 1 for conditional types, 2 for unions, 3 for intersections and 4 for what stands between
them.

## Main definitions

* `typeExpression`: a type of at least a given level.
* `typeAscription`, `resultAscription`: a type behind a colon; what a function returns.
* `typeArguments`, `typeParameters`, `objectType`.
-/

namespace DocBlocks.Grammar

open Syntax

/-- The names of built-in types. -/
def predefinedTypes : List String :=
  ["any", "number", "boolean", "string", "symbol", "void", "unknown", "never", "object"]

/-- The words that start a type and are not the name of one. -/
def typeWords : List String :=
  predefinedTypes ++ ["typeof", "keyof", "readonly", "infer", "unique", "new", "abstract", "this", "true", "false",
    "null", "undefined", "import"]

/-- Reads `w` as a modifier of what follows. It is the name itself where punctuation that ends a
name follows, and where the line ends. -/
def modifier (d : Dialect) (breaks : Bool) (w : String) : Rule :=
  seq [word w,
    whereSo fun c => !(comesOneOf "(,:=\x7d;?!<" c || atEnd c || (breaks && atLineEnd d false c))]

/-- Reads `private` and its like. -/
def accessibility (d : Dialect) (breaks : Bool) : Rule :=
  oneOf (["public", "private", "protected"].map fun w => node .accessibilityModifier (modifier d breaks w))

/-- Reads `get`, `set` or the star of a generator. -/
def accessor (d : Dialect) (breaks : Bool) : Rule :=
  oneOf [modifier d breaks "get", modifier d breaks "set", token "*"]

/-! ## Types -/

/-- Reads a type behind a colon. -/
def typeAscription (g : Rules) (breaks : Bool) : Rule :=
  node .typeAscription (seq [token ":", g (.type breaks 1)])

/-- Reads `x is T`. -/
def typePredicate (d : Dialect) (g : Rules) (breaks : Bool) : Rule :=
  node .typePredicate (seq [role .name (oneOf [leafOf .this (word? "this".toList), identifier]),
    whereSo fun c => !(breaks && atLineEnd d false c), word "is", g (.type breaks 1)])

/-- Reads `asserts x` or `asserts x is T`. -/
def assertion (d : Dialect) (g : Rules) (breaks : Bool) : Rule :=
  node .asserts (seq [word "asserts",
    oneOf [typePredicate d g breaks, leafOf .this (word? "this".toList), identifier]])

/-- Reads what a function promises to return, behind a colon. -/
def resultAscription (d : Dialect) (g : Rules) (breaks : Bool) : Rule :=
  oneOf [node .assertsAscription (seq [token ":", assertion d g breaks]),
    node .predicateAscription (seq [token ":", typePredicate d g breaks]),
    typeAscription g breaks]

/-- Reads `<T, U>` with types as arguments. -/
def typeArguments (g : Rules) : Rule :=
  node .typeArguments (seq [token "<", sepBy1 (g (.type false 1)) comma, opt comma, token ">"])

/-- Reads `<T extends A = B>`. -/
def typeParameters (g : Rules) : Rule :=
  node .typeParameters (seq [token "<", sepBy1 (node .typeParameter (seq [
      opt (seq [word "const", whereSo fun c => (name? (upcoming c)).isSome]),
      role .name (leafOf .typeIdentifier name?),
      opt (node .constraint (seq [oneOf [word "extends", token ":"], g (.type false 1)])),
      opt (node .defaultType (seq [tokenAlone "=" ">", g (.type false 1)]))])) comma,
    opt comma, token ">"])

/-- Reads the type of a function. -/
def functionType (d : Dialect) (g : Rules) (breaks : Bool) : Rule :=
  node .functionType (seq [opt (g .typeParameters), role .parameters (g .parameters), token "=>",
    role .returnType (oneOf [assertion d g breaks, typePredicate d g breaks, g (.type breaks 1)])])

/-- Reads the type of a constructor. -/
def constructorType (g : Rules) (breaks : Bool) : Rule :=
  node .constructorType (seq [opt (word "abstract"), word "new", opt (g .typeParameters),
    role .parameters (g .parameters), token "=>", g (.type breaks 1)])

/-- Reads a member of a tuple type. -/
def tupleMember (g : Rules) : Rule :=
  oneOf [
    node .optionalParameter (seq [role .name identifier, token "?", g (.typeAscription false)]),
    node .requiredParameter (seq [
      role .name (oneOf [node .restPattern (seq [token "...", identifier]), identifier]), g (.typeAscription false)]),
    node .restType (seq [token "...", g (.type false 1)]),
    node .optionalType (seq [g (.type false 1), token "?"]),
    g (.type false 1)]

/-- Lets what `typeof` asks about reach further: a member, an index or a call. -/
def queryGrow (g : Rules) (left : List Tree) : Rule :=
  oneOf [
    node .memberExpression (after (inRole .object left) (seq [oneOf [token "?.", token "."],
      role .property (oneOf [leafOf .privatePropertyIdentifier privateName?, leafOf .propertyIdentifier name?])])),
    node .subscriptExpression (after left (between "["
      (oneOf (stringLiteral :: number ::
        predefinedTypes.map fun w => leafOf .predefinedType (word? w.toList))) "]")),
    node .callExpression (after (inRole .callee left) (g .arguments))]

/-- Reads what `typeof` asks about. -/
def typeQuery (g : Rules) : Rule :=
  node .typeQuery (seq [word "typeof",
    continueWith (oneOf [leafOf .importWord (word? "import".toList), leafOf .this (word? "this".toList), identifier])
      (growing (queryGrow g)),
    opt (g .typeArguments)])

/-- Reads a type that is imported on the spot. -/
def importType (g : Rules) : Rule :=
  continueWith (leafOf .importWord (word? "import".toList)) (growing (queryGrow g))

/-- Reads the name of a type, with its module and its arguments. -/
def namedType (g : Rules) : Rule :=
  continueWith
    (continueWith (leafOf .typeIdentifier (nameExcept? typeWords)) (growing fun left =>
      node .nestedTypeIdentifier (after left (seq [token ".", leafOf .typeIdentifier name?]))))
    fun left => oneOf [node .genericType (after left (g .typeArguments)), keeping left]

/-- Reads a type that starts with a word. -/
def wordType (g : Rules) (breaks : Bool) : Rule :=
  oneOf ([typeQuery g,
    node .indexTypeQuery (seq [word "keyof", g (.type breaks 4)]),
    node .readonlyType (seq [word "readonly", g (.type breaks 4)]),
    node .inferType (seq [word "infer", leafOf .typeIdentifier name?, opt (seq [word "extends", g (.type breaks 2)])]),
    node .predefinedType (seq [word "unique", word "symbol"]),
    constructorType g breaks,
    leafOf .thisType (word? "this".toList),
    importType g] ++
    (["true", "false", "null", "undefined"].map fun w => node .literalType (word w)) ++
    (predefinedTypes.map fun w => leafOf .predefinedType (word? w.toList)) ++
    [namedType g])

/-- Reads a type up to its first operator. -/
def typeOperand (d : Dialect) (g : Rules) (breaks : Bool) : Rule := fun c =>
  match upcoming c with
  | [] => refuseNext c
  | ch :: _ =>
    if isNameStart ch ∨ ch = '\\' then wordType g breaks c
    else if ch = '(' then
      oneOf [functionType d g breaks, node .parenthesizedType (between "(" (g (.type false 1)) ")")] c
    else if ch = '<' then functionType d g breaks c
    else if ch = '\x7b' then g (.objectType .objectType) c
    else if ch = '[' then
      node .tupleType (seq [token "[", sepBy (tupleMember g) comma, opt comma, token "]"]) c
    else if ch = '?' then node .flowMaybeType (seq [token "?", g (.type breaks 4)]) c
    else if ch = '*' then leafOf .existentialType (spelled ['*']) c
    else if ch = '|' then node .unionType (seq [token "|", g (.type breaks 3)]) c
    else if ch = '&' then node .intersectionType (seq [token "&", g (.type breaks 4)]) c
    else if ch = '-' ∨ ch = '+' then
      node .literalType (node .unaryExpression (seq [oneOf [token "-", token "+"], number])) c
    else
      oneOf [node .literalType stringLiteral, node .literalType number,
        templateWith .templateLiteralType .templateType (g (.type false 1))] c

/-- Lets a type reach further by one operator of at least the given level. -/
def typeGrow (d : Dialect) (g : Rules) (breaks : Bool) (level : Nat) (left : List Tree) : Rule := fun c =>
  if breaks && atLineEnd d false c then refuse c
  else
    oneOf [
      node .arrayType (after left (seq [token "[", token "]"])),
      node .lookupType (after left (between "[" (g (.type false 1)) "]")),
      seq [whereSo fun _ => level ≤ 3,
        node .intersectionType (after left (seq [token "&", g (.type breaks 4)]))],
      seq [whereSo fun _ => level ≤ 2,
        node .unionType (after left (seq [tokenAlone "|" "\x7d", g (.type breaks 3)]))],
      seq [whereSo fun _ => level ≤ 1,
        node .conditionalType (after left (seq [word "extends", g (.type breaks 2), token "?",
          g (.type false 1), token ":", g (.type breaks 1)]))]] c

/-- Reads a type whose operators bind at least as tightly as `level`. -/
def typeExpression (d : Dialect) (g : Rules) (breaks : Bool) (level : Nat) : Rule :=
  continueWith (typeOperand d g breaks) (growing (typeGrow d g breaks level))

/-! ## Object types -/

/-- Reads the clause of a mapped type between its brackets. -/
def mappedClause (g : Rules) : Rule :=
  node .mappedTypeClause (seq [role .name (leafOf .typeIdentifier name?), word "in", g (.type false 1),
    opt (seq [word "as", g (.type false 1)])])

/-- Reads the signature of an index. -/
def indexSignature (g : Rules) : Rule :=
  node .indexSignature (seq [
    opt (seq [opt (oneOf [token "-", token "+"]), word "readonly"]),
    between "[" (oneOf [mappedClause g,
      seq [role .name identifier, token ":", g (.type false 1)]]) "]",
    oneOf [typeAscription g true,
      node .typeAscription (seq [oneOf [token "-?:", token "+?:", token "?:"], g (.type true 1)])]])

/-- Reads the name of a member of an object type or a typed class. -/
def typedPropertyName (g : Rules) : Rule :=
  seq [whereSo (fun c => !(comesWord "abstract" c || comesWord "accessor" c)), g .propertyName]

/-- Reads the modifiers that a member may start with, in their fixed order. -/
def memberModifiers (d : Dialect) (breaks : Bool) : Rule :=
  seq [opt (accessibility d breaks), opt (modifier d breaks "static"),
    opt (node .overrideModifier (modifier d breaks "override")), opt (modifier d breaks "readonly")]

/-- Reads the head of a method, up to what it takes and returns; `property` reads its name. -/
def methodHead (d : Dialect) (g : Rules) (breaks : Bool) (property : Rule) : Rule :=
  seq [memberModifiers d breaks, opt (modifier d breaks "async"), opt (accessor d breaks),
    role .name property, opt (token "?"), g (.signature breaks)]

/-- Reads a member of an object type. -/
def objectTypeMember (d : Dialect) (g : Rules) : Rule :=
  oneOf [
    node .constructSignature (seq [opt (word "abstract"), word "new", opt (g .typeParameters),
      role .parameters (g .parameters), opt (g (.typeAscription true))]),
    node .callSignature (g (.signature true)),
    indexSignature g,
    node .methodSignature (methodHead d g true (typedPropertyName g)),
    node .propertySignature (seq [memberModifiers d true, role .name (typedPropertyName g), opt (token "?"),
      opt (g (.typeAscription true))])]

/-- Reads an object type, or under another kind the body of an interface. -/
def objectType (d : Dialect) (g : Rules) (kind : Kind) : Rule :=
  let separator := oneOf [comma, endOfStatement d false]
  node kind (seq [oneOf [token "\x7b|", token "\x7b"],
    opt (oneOf [comma, token ";"]),
    opt (seq [sepBy1 (objectTypeMember d g) separator, opt separator]),
    oneOf [token "|\x7d", token "\x7d"]])

end DocBlocks.Grammar
