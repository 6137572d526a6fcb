import DocBlocks.CodeUnit
import DocBlocks.Text.Search
import DocBlocks.Text.WordCharacter

/-!
# Placement of comments

Where the comment of a code unit goes. It stands at the start of the line if what precedes the unit
on that line belongs to the unit's declaration, and right in front of the unit otherwise.

## Main definitions

* `declaresVariable`: whether the front of a line declares a variable.
* `onlyModifiers`: whether the front of a line holds indentation and modifiers only.
* `insertionPoint?`: the place for the comment of a unit.
* `indentationAt?`: the indentation of a comment at a place.
-/

namespace DocBlocks

namespace Placement

/-- The words that open a declaration of variables. -/
def declarators : List Text := ["const".toList, "let".toList, "var".toList]

/-- The words that may precede the declaration of a function or a method. -/
def modifiers : List Text :=
  ["export".toList, "default".toList, "declare".toList, "async".toList, "static".toList, "public".toList,
    "private".toList, "protected".toList, "abstract".toList, "override".toList, "readonly".toList]

/-- Whether a name may start with a character. -/
def startsName (c : Char) : Bool := c.isAlpha || c = '_' || c = '$'

/-- Whether a text starts with a declarator, white space and the start of a name. -/
def opensDeclaration (t : Text) : Bool :=
  declarators.any fun word =>
    match word.isPrefixOf? t with
    | some rest => rest.head?.any Text.isWhite && (Text.trimStart rest).head?.any startsName
    | none => false

/-- Whether a variable is declared in a text. The declarator must not continue a word; `inWord`
tells whether the text stands behind a word character. -/
def declaresVariable (inWord : Bool) : Text → Bool
  | [] => false
  | c :: t => (!inWord && opensDeclaration (c :: t)) || declaresVariable (Text.isWordCharacter c) t

/-- Whether a character is a space or a tab. -/
def isIndent (c : Char) : Bool := c = ' ' || c = '\t'

/-- Whether a text holds spaces and tabs, and then modifiers each with white space behind it. -/
def onlyModifiers (t : Text) : Bool :=
  let rest := t.dropWhile isIndent
  rest = [] ||
    (!rest.head?.any Text.isWhite && rest.getLast?.any Text.isWhite &&
      (Text.words rest).all modifiers.contains)

/-- Whether the comment of a unit of this shape moves to the start of the line, given what stands in
front of the unit on that line. -/
def moves : CodeUnit.Shape → Text → Bool
  | .arrow, front => declaresVariable false front
  | .function, front | .method, front => onlyModifiers front

end Placement

/-- The place for the comment of a unit of some shape that starts at byte `start`. There is none if
the source cannot be cut there. -/
def insertionPoint? (source : Text) (shape : CodeUnit.Shape) (start : Nat) : Option Nat :=
  match source.splitAt? start with
  | some (before, _) =>
    let (lines, front) := Text.splitLastLine before
    some (if Placement.moves shape front then lines.bytes else start)
  | none => none

/-- The indentation of a comment at a place: that of its line if the place is the start of the line,
and none within a line. There is no such place if the source cannot be cut there. -/
def indentationAt? (source : Text) (point : Nat) : Option Text :=
  match source.splitAt? point with
  | some (before, rest) =>
    some (if (Text.splitLastLine before).2 = [] then rest.takeWhile Placement.isIndent else [])
  | none => none

end DocBlocks
