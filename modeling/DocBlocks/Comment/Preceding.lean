import DocBlocks.Text.Search

/-!
# Comments above a place

A documentation comment belongs to the code below it if only white space with at most one line feed
stands between the two. The search works on the text alone: it looks backwards from the place for
the marks of a block comment.

## Main definitions

* `Comment.lastComment?`: the block comment that ends a text.
* `Comment.above?`: the text above the documentation comment that ends a text.
* `precedingBlock?`, `precedingRun?`: the bytes of the documentation comments right above a place.
-/

namespace DocBlocks

namespace Comment

/-- The mark that opens a block comment. -/
def opener : Text := ['/', '*']

/-- The mark that opens a documentation comment. -/
def docOpener : Text := ['/', '*', '*']

/-- The mark that closes a block comment. -/
def closer : Text := ['*', '/']

/-- Whether a block comment is a documentation comment. -/
def isDoc (comment : Text) : Bool :=
  docOpener.isPrefixOf comment && comment ≠ opener ++ closer

/-- The block comment that ends a text, with the text in front of it. A comment runs from its opener
to the first closer, so this one opens at the first opener behind the closer before its own. -/
def lastComment? (text : Text) : Option (Text × Text) :=
  match closer.isSuffixOf? text with
  | some body =>
    let (earlier, tail) := Text.splitBehindLast closer body
    (Text.breakAt? opener tail).map fun (front, comment) => (earlier ++ front, comment ++ closer)
  | none => none

/-- The text above the documentation comment that ends `before`, white space with at most one line
feed aside. The indentation in front of the comment goes with it if nothing else stands there. -/
def above? (before : Text) : Option Text :=
  let text := before.trimEnd
  if Text.lineBreaks (before.drop text.length) ≤ 1 then
    match lastComment? text with
    | some (front, comment) =>
      if isDoc comment then
        let (lines, line) := Text.splitLastLine front
        some (if line.all Text.isWhite then lines else front)
      else none
    | none => none
  else none

/-- The text above the documentation comments, at most `n` of them, that end a text one after the
other. -/
def aboveRun : Nat → Text → Text
  | 0, before => before
  | n + 1, before =>
    match above? before with
    | some top => aboveRun n top
    | none => before

end Comment

/-- The bytes from the start of the documentation comment right above a place to that place. -/
def precedingBlock? (source : Text) (position : Nat) : Option Span :=
  match source.splitAt? position with
  | some (before, _) => (Comment.above? before).map fun top => ⟨top.bytes, position⟩
  | none => none

/-- The bytes from the start of the documentation comments stacked right above a place to that
place. At most `count` comments are taken, but always the first. -/
def precedingRun? (source : Text) (position count : Nat) : Option Span :=
  match source.splitAt? position with
  | some (before, _) =>
    (Comment.above? before).map fun top => ⟨(Comment.aboveRun (count - 1) top).bytes, position⟩
  | none => none

end DocBlocks
