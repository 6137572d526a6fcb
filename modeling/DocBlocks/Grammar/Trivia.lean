import DocBlocks.Grammar.Reader
import DocBlocks.Dialect

/-!
# Between the tokens

Blanks and comments may stand between any two tokens. A line break may also end a statement in place
of a semicolon; whether it does is decided on the raw text, before the next token is read, by the
rules of `breaksStatement`.

## Main definitions

* `isBlank`, `comment?`: what is skipped between tokens.
* `skipBlanks`, `skipTrivia`: the cursor behind blanks, and behind blanks and comments.
* `breaksStatement`: whether the text here ends a statement without a semicolon.
* `endOfStatement`: the end of a statement, written or implied.
-/

namespace DocBlocks.Grammar

open Syntax

/-- The blanks of one byte. -/
def isAsciiBlank (c : Char) : Bool :=
  c = ' ' || c = '\t' || c = '\n' || c = '\r' || c.toNat = 0x0B || c.toNat = 0x0C

/-- The characters that may stand between tokens: ASCII blanks, the space separators of Unicode, the
two separators of lines and paragraphs, and four invisible characters. -/
def isBlank (c : Char) : Bool :=
  isAsciiBlank c ||
  (0x7F < c.toNat &&
    (c.toNat = 0xA0 || c.toNat = 0x1680 || (0x2000 ≤ c.toNat && c.toNat ≤ 0x200B) || c.toNat = 0x2028 ||
      c.toNat = 0x2029 || c.toNat = 0x202F || c.toNat = 0x205F || c.toNat = 0x2060 || c.toNat = 0x3000 ||
      c.toNat = 0xFEFF))

/-- The two Unicode separators that end a line. -/
def isLineSeparator (c : Char) : Bool :=
  c.toNat = 0x2028 || c.toNat = 0x2029

/-- The characters that end a line comment. -/
def endsLine (c : Char) : Bool :=
  c = '\n' || c = '\r' || isLineSeparator c

/-- The text behind the first `*/`. -/
def afterCommentEnd? : Text → Option Text
  | '*' :: '/' :: t => some t
  | _ :: t => afterCommentEnd? t
  | [] => none

/-- A comment at the start of a text, and what follows it. -/
def comment? : Text → Option (Text × Text)
  | '/' :: '/' :: t =>
    some ('/' :: '/' :: t.takeWhile (fun c => !endsLine c), t.dropWhile (fun c => !endsLine c))
  | '/' :: '*' :: t =>
    (afterCommentEnd? t).map fun rest => ('/' :: '*' :: t.take (t.length - rest.length), rest)
  | _ => none

/-- A comment of the kind that web pages put around scripts: from `<!--` or `-->` to the end of the
line. -/
def htmlComment? (t : Text) : Option (Text × Text) :=
  if "<!--".toList.isPrefixOf t || "-->".toList.isPrefixOf t then
    let inLine := fun c => !(c = '\n' || isLineSeparator c)
    some (t.takeWhile inLine, t.dropWhile inLine)
  else none

/-- The cursor behind the blanks. -/
def skipBlanks (c : Cursor) : Cursor :=
  c.past (c.rest.takeWhile isBlank) (c.rest.dropWhile isBlank)

/-- Reads a lexeme right here, without skipping anything. -/
def exactly (lexeme? : Text → Option (Text × Text)) (label : Label) : Rule := fun c =>
  match lexeme? c.rest with
  | some (lexeme, rest) =>
    let next := c.past lexeme rest
    let leaf := .leaf label c.offset next.offset
    .accepted [leaf] (next.withTree leaf)
  | none => .refused (c.refusing c.offset)

/-- Reads a comment behind blanks. It leaves no trail. -/
def comment : Rule := fun c =>
  let here := skipBlanks c
  match exactly comment? (.node .comment) here with
  | .accepted forest next => .accepted forest { next with trail := c.trail }
  | .refused _ => .refused (c.refusing here.offset)

/-- Reads all comments up to the next token. -/
def comments : Rule := many comment

/-- The comments in front of the next token, and the cursor at that token. -/
def skipTrivia (c : Cursor) : List Tree × Cursor :=
  match comments c with
  | .accepted forest next => (forest, { skipBlanks next with seen := c.seen })
  | .refused _ => ([], skipBlanks c)

/-- Reads the next token behind blanks and comments. -/
def lexeme (lexeme? : Text → Option (Text × Text)) (label : Label) : Rule := fun c =>
  let (lead, here) := skipTrivia c
  match lexeme? here.rest with
  | some (text, rest) =>
    let next := here.past text rest
    let leaf := .leaf label here.offset next.offset
    .accepted (lead ++ [leaf]) (next.withTree leaf)
  | none => .refused (c.refusing here.offset)

/-- Refuses the next token, whatever it is. -/
def refuseNext : Rule := lexeme (fun _ => none) (.token "")

/-- The text at the next token. -/
def upcoming (c : Cursor) : Text := (skipTrivia c).2.rest

/-! ## Line breaks that end a statement -/

/-- How far blanks and comments were skipped when looking for the end of a statement. -/
inductive Skipped where
  /-- Something other than a comment starts with a slash. -/
  | slash
  /-- A block comment without a line break was skipped. -/
  | sameLine (rest : Text)
  /-- All blanks and comments were skipped. -/
  | all (rest : Text)
  deriving Inhabited

/-- The text behind a block comment, and whether there was a line break in it. An unclosed comment
reaches to the end. -/
def afterBlock : Text → Bool → Text × Bool
  | '*' :: '/' :: t, broken => (t, broken)
  | c :: t, broken => afterBlock t (broken || c = '\n' || isLineSeparator c)
  | [], broken => ([], broken)

/-- Skips blanks and comments up to the next token. Unless `through` is set, it stops behind a block
comment that no slash follows. -/
def skipForBreak (through : Bool) : Nat → Text → Skipped
  | 0, t => .all t
  | n + 1, t =>
    match t.dropWhile isAsciiBlank with
    | '/' :: '/' :: r => skipForBreak through n (r.dropWhile fun c => !(c = '\n' || isLineSeparator c))
    | '/' :: '*' :: r =>
      let (rest, broken) := afterBlock r false
      if rest.head? ≠ some '/' ∧ !through then
        if broken then .all rest else .sameLine rest
      else skipForBreak through n rest
    | '/' :: _ => .slash
    | r => .all r

/-- Whether a statement ends between a line break and the token that starts the text. A token that
could continue an expression keeps the statement open, except `++`, `--`, a lone `!` and a decimal
number. -/
def breaksBefore (d : Dialect) (operand signature : Bool) : Text → Bool
  | [] => true
  | c :: t =>
    if "`,;*%><=?^|&/:".toList.contains c then false
    else if c = '(' ∨ c = '[' then d.typed && !operand
    else if c = '.' then !d.typed && (t.head?.map Char.isDigit).getD false
    else if c = '{' then !(d.typed && signature)
    else if c = '+' then t.head? = some '+'
    else if c = '-' then t.head? = some '-'
    else if c = '!' then t.head? ≠ some '='
    else if c = 'i' then
      match t with
      | 'n' :: r =>
        if (r.head?.map Char.isAlpha).getD false then
          if "stanceof".toList.isPrefixOf r then ((r.drop 8).head?.map Char.isAlpha).getD false else true
        else false
      | _ => true
    else true

/-- The search for the end of a statement on the current line, in a typed dialect. -/
def breaksTyped (d : Dialect) (operand signature : Bool) : Text → Bool
  | [] => true
  | c :: t =>
    if c.toNat = 0 then true
    else if c = '}' then
      if (t.dropWhile isAsciiBlank).head? = some ':' then operand else true
    else if c = '\n' then
      match skipForBreak true (t.length + 1) t with
      | .all r | .sameLine r => breaksBefore d operand signature r
      | .slash => false
    else if isAsciiBlank c then breaksTyped d operand signature t
    else false

/-- What follows the line break, in the untyped dialect. -/
def breaksAfterLine (operand : Bool) (t : Text) : Bool :=
  match skipForBreak true (t.length + 1) t with
  | .all r | .sameLine r => breaksBefore .javaScript operand false r
  | .slash => false

/-- The search for the end of a statement on the current line, in the untyped dialect. -/
def breaksUntyped (operand : Bool) : Nat → Text → Bool
  | 0, _ => false
  | _ + 1, [] => true
  | n + 1, c :: t =>
    let here (u : Text) : Bool :=
      match u with
      | [] => false
      | c :: t =>
        if c = '}' then true
        else if c = '\n' ∨ isLineSeparator c then breaksAfterLine operand t
        else if isAsciiBlank c then breaksUntyped operand n t
        else false
    if c.toNat = 0 then true
    else if c = '/' then
      match skipForBreak false (t.length + 2) (c :: t) with
      | .slash => false
      | .sameLine r => here r
      | .all r => if !operand ∧ r.head? ≠ some ',' ∧ r.head? ≠ some '=' then true else here r
    else here (c :: t)

/-- Whether the text ends a statement although no semicolon is written. `operand` tells that what
was read last could be the left operand of `||`; `signature` that it could be the head of a function
without body. -/
def breaksStatement (d : Dialect) (operand signature : Bool) (t : Text) : Bool :=
  if d.typed then breaksTyped d operand signature t else breaksUntyped operand (t.length + 1) t

/-- Reads the empty token where a statement ends without a semicolon, behind any comments before
it. -/
def impliedEnd (d : Dialect) (operand signature : Bool) : Nat → Rule
  | 0 => refuse
  | n + 1 => fun c =>
    if breaksStatement d operand signature c.rest then
      .accepted [.leaf (.token "") c.offset c.offset] { c with ended := true }
    else continueWith comment (fun forest => after forest (impliedEnd d operand signature n)) c

/-- Reads the end of a statement that no semicolon marks. -/
def lineEnd (d : Dialect) (operand signature : Bool) : Rule := fun c =>
  impliedEnd d operand signature (c.rest.length + 1) c

/-- Whether a statement ends here without a semicolon. -/
def atLineEnd (d : Dialect) (operand : Bool) (c : Cursor) : Bool :=
  match lineEnd d operand false c with
  | .accepted _ _ => true
  | .refused _ => false

end DocBlocks.Grammar
