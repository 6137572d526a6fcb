import DocBlocks.Grammar.Lexeme

/-!
# Goals and tokens

The productions of the grammar call each other in every direction, so they are written against an
arbitrary `Grammar`: a rule for each `Goal`. The knot is tied once, in `DocBlocks.Grammar.Parse`.

## Main definitions

* `Place`: where an expression stands, which decides how far it reaches.
* `Goal`, `Rules`: what can be asked for, and an answer to each question.
* `token`, `word`, `identifier`: the rules that read one token.
-/

namespace DocBlocks.Grammar

open Syntax

/-- Where an expression stands. -/
structure Place where
  /-- Operators that bind looser than this stay outside. -/
  level : Nat
  /-- A line break may end the statement around it. -/
  breaks : Bool
  /-- An arrow function may carry a result type. -/
  result : Bool := true
  /-- It names what a class extends, so type arguments belong to the class head. -/
  heritage : Bool := false
  deriving DecidableEq, Repr, Inhabited

namespace Level

/-- Every operator but the comma. -/
def whole : Nat := 1

/-- The conditional operator. -/
def ternary : Nat := 3

/-- The operators that bind tighter than comparison. -/
def shifted : Nat := 11

/-- Prefix operators. -/
def unary : Nat := 15

/-- What `await` waits for. -/
def awaited : Nat := 16

/-- `++` and `--` behind their operand. -/
def update : Nat := 16

/-- Only members and calls, for what may stand left of `=`. -/
def target : Nat := 18

/-- Only members, for what follows `new`. -/
def constructed : Nat := 19

/-- Whether the operators of the typed dialects are taken in: `as`, `satisfies` and the final `!`
bind looser than the binary operators, but `await` reaches over them. -/
def loose (level : Nat) : Bool := level ≤ ternary || level = awaited

end Level

/-- A whole expression between brackets. -/
def Place.enclosed : Place := { level := Level.whole, breaks := false }

/-- A whole expression that a line break may end. -/
def Place.inStatement : Place := { level := Level.whole, breaks := true }

/-- What the productions ask each other for. -/
inductive Goal where
  | statement
  /-- A block; `operand` tells that an operator may follow it. -/
  | block (operand : Bool)
  | expression (place : Place)
  /-- Expressions separated by commas. -/
  | expressions (place : Place)
  | arguments
  | propertyName
  | object
  | template
  | parameters
  /-- What a function takes and returns. -/
  | signature (breaks : Bool)
  /-- A method of a class or an object. -/
  | method (inClass : Bool)
  | decorator
  | classBody
  | markup
  | type (breaks : Bool) (level : Nat)
  | typeAscription (breaks : Bool)
  | typeArguments
  | typeParameters
  | objectType (kind : Kind)
  deriving Inhabited

/-- A rule for each goal. -/
abbrev Rules := Goal → Rule

/-! ## Tokens -/

/-- Reads the given punctuation. -/
def token (s : String) : Rule := lexeme (spelled s.toList) (.token s)

/-- Reads the given punctuation where none of the characters of `notBefore` follows. -/
def tokenAlone (s notBefore : String) : Rule := lexeme (spelledAlone s.toList notBefore.toList) (.token s)

/-- Reads the given punctuation right here. -/
def immediate (s : String) : Rule := exactly (spelled s.toList) (.token s)

/-- Reads the given word. -/
def word (w : String) : Rule := lexeme (word? w.toList) (.token w)

/-- Reads a token as a node of kind `k`. -/
def leafOf (k : Kind) (r : Recogniser) : Rule := lexeme r (.node k)

/-- Reads any name as an identifier. -/
def identifier : Rule := leafOf .identifier name?

/-- Whether the next token is the given punctuation. -/
def comes (s : String) (c : Cursor) : Bool := s.toList.isPrefixOf (upcoming c)

/-- Whether the next token is the given word. -/
def comesWord (w : String) (c : Cursor) : Bool := (word? w.toList (upcoming c)).isSome

/-- Whether the next token starts with one of the characters. -/
def comesOneOf (s : String) (c : Cursor) : Bool :=
  match (upcoming c).head? with
  | some ch => s.toList.contains ch
  | none => false

/-- Whether there is no further token. -/
def atEnd (c : Cursor) : Bool := (upcoming c).isEmpty

/-- Reads the end of a statement: a semicolon, or what stands for one. -/
def endOfStatement (d : Dialect) (operand : Bool) : Rule :=
  oneOf [lineEnd d operand false, token ";"]

/-- The words that start an expression and can be no identifier there. -/
def operandWords (d : Dialect) : List String :=
  let common := ["this", "super", "true", "false", "null", "undefined", "function", "class", "import", "await",
    "yield", "typeof", "void", "delete", "using"]
  if d.typed then common else "new" :: common

/-- Reads an identifier where an expression may stand. -/
def operandIdentifier (d : Dialect) : Rule := leafOf .identifier (nameExcept? (operandWords d))

/-- Reads a comma. -/
def comma : Rule := token ","

/-- Reads `p` between two punctuation marks. -/
def between (opening : String) (p : Rule) (closing : String) : Rule :=
  seq [token opening, p, token closing]

end DocBlocks.Grammar
