import DocBlocks.Grammar.Expression

/-!
# Declarations

Variables, functions, classes, and what only the typed dialects declare: types, interfaces,
enumerations and namespaces.

## Main definitions

* `declaration`: any declaration; `functionDeclaration`, `lexicalDeclaration`, … the single kinds.
-/

namespace DocBlocks.Grammar

open Syntax

/-- Reads a block of statements. A line break behind it may end the statement it belongs to;
`operand` tells that an operator may follow it instead. -/
def block (d : Dialect) (statements : Rule) (operand : Bool) : Rule :=
  node .statementBlock (seq [token "\x7b", statements, token "\x7d", opt (lineEnd d operand false)])

/-! ## Variables -/

/-- Reads what a declaration binds, with its type and its initial value. -/
def declarator (d : Dialect) (g : Rules) : Rule :=
  node .variableDeclarator (seq [role .name (binding g),
    if d.typed then opt (oneOf [seq [token "!", g (.typeAscription true)], g (.typeAscription true)]) else done,
    opt (initializer g .inStatement)])

/-- Reads declarators with commas between them, and the end of the statement. -/
def declarators (d : Dialect) (g : Rules) : Rule :=
  continueWith (sepBy1 (declarator d g) comma) fun forest =>
    after forest (endOfStatement d ((head? forest).any fun t => (t.part? .value).isSome))

/-- Reads a declaration with `var`. -/
def variableDeclaration (d : Dialect) (g : Rules) : Rule :=
  node .variableDeclaration (seq [word "var", declarators d g])

/-- Reads a declaration with `let` or `const`. -/
def lexicalDeclaration (d : Dialect) (g : Rules) : Rule :=
  node .lexicalDeclaration (seq [oneOf [word "let", word "const"], declarators d g])

/-! ## Functions and classes -/

/-- Reads a function with a name and a body. -/
def functionDeclaration (d : Dialect) (g : Rules) (operand : Bool) : Rule :=
  let tail := seq [role .name identifier, g (.signature true), role .body (g (.block operand))]
  let head := seq [opt (word "async"), word "function"]
  oneOf [
    node .functionDeclaration (seq [head, tail]),
    node .generatorFunctionDeclaration (seq [head, token "*", tail]),
    if d.typed then
      node .functionSignature (seq [head, role .name identifier, g (.signature true),
        oneOf [lineEnd d false true, token ";"]])
    else refuse]

/-- Reads a class with a name. -/
def classDeclaration (d : Dialect) (g : Rules) : Rule :=
  seq [
    node .classDeclaration (seq [many (g .decorator), word "class", className d, classTail d g,
      opt (lineEnd d true false)])]

/-- Reads an abstract class. -/
def abstractClass (d : Dialect) (g : Rules) : Rule :=
  node .abstractClassDeclaration (seq [many (g .decorator), word "abstract", word "class", className d, classTail d g])

/-! ## Declarations of the typed dialects -/

/-- Reads a name with further names behind dots. -/
def dottedName : Rule :=
  continueWith identifier (growing fun left =>
    node .nestedIdentifier (after left (seq [token ".", leafOf .propertyIdentifier name?])))

/-- Reads the declaration of a type. -/
def typeAlias (d : Dialect) (g : Rules) : Rule :=
  node .typeAliasDeclaration (seq [word "type", role .name (leafOf .typeIdentifier name?), opt (g .typeParameters),
    tokenAlone "=" "=>", g (.type true 1), endOfStatement d false])

/-- Reads an interface. -/
def interfaceDeclaration (g : Rules) : Rule :=
  node .interfaceDeclaration (seq [word "interface", role .name (leafOf .typeIdentifier name?), opt (g .typeParameters),
    opt (node .extendsTypeClause (seq [word "extends", sepBy1 (namedType g) comma])),
    role .body (g (.objectType .interfaceBody))])

/-- Reads an enumeration. -/
def enumDeclaration (g : Rules) : Rule :=
  let entry := continueWith (role .name (g .propertyName)) fun name => oneOf [
    node .enumAssignment (after name (initializer g .enclosed)), keeping name]
  node .enumDeclaration (seq [opt (word "const"), word "enum", role .name identifier,
    role .body (node .enumBody (between "\x7b" (opt (seq [sepBy1 entry comma, opt comma])) "\x7d"))])

/-- Reads the name and the body of a namespace. -/
def namespaceTail (g : Rules) : Rule :=
  seq [role .name (oneOf [stringLiteral, dottedName]),
    opt (seq [whereSo (comes "\x7b"), role .body (g (.block false))])]

/-- Reads a namespace. -/
def namespaceDeclaration (g : Rules) : Rule :=
  oneOf [
    node .internalModule (seq [word "namespace", namespaceTail g]),
    node .moduleDeclaration (seq [word "module", namespaceTail g])]

/-- Reads a new name for a namespace. -/
def importAlias (d : Dialect) : Rule :=
  node .importAlias (seq [word "import", identifier, token "=", dottedName, endOfStatement d false])

/-- Whether the word at the cursor is followed, before any implied end, by a token of which `p`
holds. -/
def followedBy (d : Dialect) (p : Cursor → Bool) (c : Cursor) : Bool :=
  match lexeme name? (.token "") c with
  | .accepted _ next => !atLineEnd d true next && p next
  | .refused _ => false

/-- Whether a name comes that is no operator. -/
def comesName (c : Cursor) : Bool :=
  (nameExcept? ["in", "instanceof", "as", "satisfies"] (upcoming c)).isSome

/-- Reads a declaration of the typed dialects that starts with the given word, where it is one. -/
def typedDeclaration (d : Dialect) (g : Rules) (declared : Rule) (w : Text) : Rule := fun c =>
  if w = "type".toList ∧ followedBy d comesName c then typeAlias d g c
  else if w = "interface".toList then interfaceDeclaration g c
  else if w = "enum".toList ∨ w = "const".toList then enumDeclaration g c
  else if w = "namespace".toList ∧ followedBy d (fun n => comesName n || comesOneOf "\"'" n) c then
    namespaceDeclaration g c
  else if w = "module".toList ∧ followedBy d (fun n => comesName n || comesOneOf "\"'" n) c then
    namespaceDeclaration g c
  else if w = "abstract".toList then abstractClass d g c
  else if w = "import".toList then importAlias d c
  else if w = "declare".toList ∧ followedBy d comesName c then
    node .ambientDeclaration (seq [word "declare", oneOf [declared,
      seq [word "global", g (.block false)],
      seq [word "module", token ".", leafOf .propertyIdentifier name?, token ":", g (.type true 1),
        endOfStatement d false]]]) c
  else refuseNext c

/-- Reads a declaration that starts with the given word. -/
def declarationAt (d : Dialect) (g : Rules) (declared : Rule) (operand : Bool) (w : Text) : Rule :=
  if w = "function".toList ∨ w = "async".toList then functionDeclaration d g operand
  else if w = "class".toList then classDeclaration d g
  else if w = "var".toList then variableDeclaration d g
  else if w = "let".toList then lexicalDeclaration d g
  else if w = "const".toList then
    if d.typed then
      oneOf [seq [ahead (seq [word "const", word "enum"]), enumDeclaration g], lexicalDeclaration d g]
    else lexicalDeclaration d g
  else if d.typed then typedDeclaration d g declared w
  else refuseNext

/-- Reads a declaration, at most `n` times marked as ambient. -/
def declarationWithin (d : Dialect) (g : Rules) (operand : Bool) : Nat → Rule
  | 0 => refuseNext
  | n + 1 => fun c =>
    match name? (upcoming c) with
    | some (w, _) => declarationAt d g (declarationWithin d g operand n) operand w c
    | none =>
      if comes "@" c then oneOf [classDeclaration d g, if d.typed then abstractClass d g else refuse] c
      else refuseNext c

/-- Reads a declaration. -/
def declaration (d : Dialect) (g : Rules) (operand : Bool) : Rule := fun c =>
  declarationWithin d g operand (c.rest.length + 1) c

end DocBlocks.Grammar
