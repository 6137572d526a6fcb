import DocBlocks.Grammar.Goal

/-!
# Literals

Strings, templates, regular expressions, numbers, arrays and objects.

An object literal may contain a shorthand property with a default (`a = 1`), which only means
something once the literal turns out to be a pattern. `DocBlocks.Grammar.Parse` refuses a source in
which one is left over.

## Main definitions

* `stringLiteral`, `template`, `regex`, `number`.
* `array`, `object`, `propertyName`.
-/

namespace DocBlocks.Grammar

open Syntax

/-- Reads a piece of a string: text, an escape sequence, or a comment behind a line break. -/
def stringPiece (quote : Char) : Rule := fun c =>
  match takeSome (fun ch => !(ch = quote || ch = '\\' || ch = '\r' || ch = '\n')) c.rest with
  | some _ => exactly (takeSome fun ch => !(ch = quote || ch = '\\' || ch = '\r' || ch = '\n'))
      (.node .stringFragment) c
  | none =>
    match escape? c.rest with
    | some _ => exactly escape? (.node .escapeSequence) c
    | none => seq [whereSo (fun c => c.rest.head?.any isBlank), comment] c

/-- Reads a string between the given quotes. -/
def quoted (quote : Char) : Rule :=
  let mark := String.singleton quote
  node .string (seq [token mark, many (stringPiece quote), token mark])

/-- Reads a string. -/
def stringLiteral : Rule := oneOf [quoted '"', quoted '\'']

/-- The longest run of characters that stand for themselves in a template. -/
def templateRun : Text → Text × Text
  | [] => ([], [])
  | '`' :: t => ([], '`' :: t)
  | '\\' :: t => ([], '\\' :: t)
  | '$' :: '{' :: t => ([], '$' :: '{' :: t)
  | c :: t =>
    let (run, rest) := templateRun t
    (c :: run, rest)

/-- Characters that stand for themselves in a template. -/
def templateText? : Recogniser := fun t =>
  match templateRun t with
  | ([], _) => none
  | found => some found

/-- Reads a template; `slot` reads what stands between `${` and the closing brace. -/
def templateWith (kind slotKind : Kind) (slot : Rule) : Rule :=
  node kind (seq [token "`",
    many (oneOf [exactly templateText? (.node .stringFragment), exactly escape? (.node .escapeSequence),
      node slotKind (seq [immediate "$\x7b", slot, token "\x7d"])]),
    immediate "`"])

/-- Reads a template string. -/
def template (g : Rules) : Rule :=
  templateWith .templateString .templateSubstitution (g (.expressions .enclosed))

/-- Reads a regular expression. -/
def regex : Rule :=
  node .regex (seq [token "/", exactly regexPattern? (.node .regexPattern), immediate "/",
    opt (exactly (takeSome fun c => 'a' ≤ c && c ≤ 'z') (.node .regexFlags))])

/-- Reads a number. -/
def number : Rule := leafOf .number number?

/-- Reads `p` between commas, where any place may be left empty. -/
def sparse (p : Rule) : Rule := seq [opt p, many (seq [comma, opt p])]

/-- Reads three dots and an expression. -/
def spread (g : Rules) : Rule :=
  node .spreadElement (seq [token "...", g (.expression .enclosed)])

/-- Reads a list of arguments. -/
def arguments (g : Rules) : Rule :=
  node .arguments (between "(" (sparse (oneOf [spread g, g (.expression .enclosed)])) ")")

/-- Reads an array literal. -/
def array (g : Rules) : Rule :=
  node .array (between "[" (sparse (oneOf [spread g, g (.expression .enclosed)])) "]")

/-- Reads the name of a property. -/
def propertyName (g : Rules) : Rule :=
  oneOf [leafOf .propertyIdentifier name?, leafOf .privatePropertyIdentifier privateName?, stringLiteral, number,
    node .computedPropertyName (between "[" (g (.expression .enclosed)) "]")]

/-- Reads a member of an object literal. -/
def objectMember (g : Rules) : Rule :=
  oneOf [spread g, g (.method false),
    node .pair (seq [role .name (g .propertyName), token ":", role .value (g (.expression .enclosed))]),
    node .objectAssignmentPattern (seq [role .left (leafOf .shorthandPropertyIdentifierPattern name?),
      tokenAlone "=" "=>", role .right (g (.expression .enclosed))]),
    leafOf .shorthandPropertyIdentifier name?]

/-- Reads an object literal. -/
def object (g : Rules) : Rule :=
  node .object (between "\x7b" (sparse (objectMember g)) "\x7d")

end DocBlocks.Grammar
