import DocBlocks.Grammar.Literal

/-!
# Markup

Elements in expressions: `<a b={c}>text</a>`. The names of the opening and the closing tag need not
agree.

Text between tags may hold neither `>` nor a closing brace, and an ampersand only starts a character
reference. Blanks that contain or follow a line break, with nothing else around them, are no text.

## Main definitions

* `markup`: an element with its children.
-/

namespace DocBlocks.Grammar

open Syntax

/-- A reference to a character, such as `&amp;` or `&#10;`. -/
def characterReference? : Recogniser
  | '&' :: t =>
    let closed (digits rest : Text) (most : Nat) (lead : Text) : Option (Text × Text) :=
      match rest with
      | ';' :: r => if digits.isEmpty ∨ most < digits.length then none else some ('&' :: lead ++ digits ++ [';'], r)
      | _ => none
    match t with
    | '#' :: x :: r =>
      if x = 'x' ∨ x = 'X' then closed (r.takeWhile isHexDigit) (r.dropWhile isHexDigit) 6 ['#', x]
      else closed ((x :: r).takeWhile Char.isDigit) ((x :: r).dropWhile Char.isDigit) 5 ['#']
    | _ => closed (t.takeWhile Char.isAlpha) (t.dropWhile Char.isAlpha) 30 []
  | _ => none

/-- Reads a character reference. -/
def characterReference : Rule := leafOf .htmlCharacterReference characterReference?

/-- Whether a run between tags counts as text: it holds a character that is no blank behind a line
break. -/
def countsAsText : Bool → Text → Bool
  | _, [] => false
  | newline, c :: t =>
    if c = '\n' then countsAsText true t
    else if newline && isAsciiBlank c then countsAsText true t
    else true

/-- Text between tags. -/
def markupText? : Recogniser := fun t =>
  let plain := fun c : Char => !("<>\x7b\x7d&".toList.contains c || c.toNat = 0)
  let run := t.takeWhile plain
  if countsAsText false run then some (run, t.dropWhile plain) else none

/-- Reads an expression between braces; it may be left out. -/
def markupExpression (g : Rules) : Rule :=
  node .jsxExpression (between "\x7b" (opt (oneOf [spread g, g (.expressions .enclosed)])) "\x7d")

/-- Reads a name of markup. -/
def markupName (k : Kind) : Rule := oneOf [leafOf k hyphenName?, leafOf k name?]

/-- Lets the name of an element reach further by one member. -/
def elementNameGrow (left : List Tree) : Rule :=
  node .memberExpression (after (inRole .object left)
    (seq [token ".", role .property (leafOf .propertyIdentifier name?)]))

/-- Reads the name of an element. -/
def elementName : Rule :=
  oneOf [
    node .jsxNamespaceName (seq [markupName .identifier, token ":", markupName .identifier]),
    continueWith (markupName .identifier) (growing elementNameGrow)]

/-- A piece of an attribute's text: an ampersand in it is followed by neither a letter nor a number
sign. -/
def attributeText? (quote : Char) : Recogniser := fun t =>
  let rec run : Text → Text × Text
    | [] => ([], [])
    | '&' :: c :: r =>
      if c = '#' ∨ c.isAlpha then ([], '&' :: c :: r)
      else
        let (more, rest) := run r
        ('&' :: c :: more, rest)
    | ['&'] => ([], ['&'])
    | c :: r =>
      if c = quote then ([], c :: r)
      else
        let (more, rest) := run r
        (c :: more, rest)
  match run t with
  | ([], _) => none
  | found => some found

/-- Reads the text of an attribute. -/
def attributeString (quote : Char) : Rule :=
  let mark := String.singleton quote
  node .string (seq [token mark,
    many (oneOf [exactly (attributeText? quote) (.node .stringFragment), characterReference]), token mark])

/-- Reads an attribute. -/
def markupAttribute (g : Rules) : Rule :=
  oneOf [markupExpression g,
    node .jsxAttribute (seq [
      oneOf [
        node .jsxNamespaceName (seq [markupName .propertyIdentifier, token ":", markupName .propertyIdentifier]),
        markupName .propertyIdentifier],
      opt (seq [token "=",
        oneOf [attributeString '"', attributeString '\'', markupExpression g, g .markup]])])]

/-- Reads a tag up to its closing bracket. -/
def tagStart (d : Dialect) (g : Rules) : Rule :=
  seq [tokenAlone "<" "/", opt (seq [elementName, if d.typed then opt (g .typeArguments) else done, many (markupAttribute g)])]

/-- Reads what may stand between two tags. -/
def child (g : Rules) : Rule :=
  oneOf [exactly markupText? (.node .jsxText), characterReference, markupExpression g, g .markup]

/-- Reads a closing tag. -/
def closingTag : Rule :=
  node .jsxClosingElement (seq [token "</", opt elementName, token ">"])

/-- Reads an element. -/
def markup (d : Dialect) (g : Rules) : Rule :=
  continueWith (tagStart d g) fun start => oneOf [
    node .jsxSelfClosingElement (after start (token "/>")),
    node .jsxElement (seq [node .jsxOpeningElement (after start (token ">")), many (child g), closingTag])]

end DocBlocks.Grammar
