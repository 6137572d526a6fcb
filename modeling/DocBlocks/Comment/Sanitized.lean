import DocBlocks.Comment.Preceding

/-!
# Comments in foreign text

A generator of text is asked for one documentation comment but may answer anything. What is kept of
its answer is one comment, or nothing.

## Main definitions

* `Comment.stripFence`: a text without the Markdown fence around it.
* `Comment.sanitize?`: the one comment in a text.
-/

namespace DocBlocks.Comment

/-- The mark of a Markdown fence. -/
def fence : Text := ['`', '`', '`']

/-- A text without the fence that opens it, the name of a language behind the fence, and one line
feed. -/
def stripOpeningFence (text : Text) : Text :=
  match fence.isPrefixOf? text with
  | some rest =>
    let rest := rest.dropWhile Char.isAlpha
    (['\n'].isPrefixOf? rest).getD rest
  | none => text

/-- A text without the Markdown fence around it and without white space at its ends. -/
def stripFence (text : Text) : Text :=
  let text := stripOpeningFence text
  Text.trim ((fence.isSuffixOf? text).getD text)

/-- The first documentation comment in a text, from its opener to the next closer. -/
def firstDoc? (text : Text) : Option Text :=
  match Text.breakAt? docOpener text with
  | some (_, comment) =>
    (Text.breakAt? closer (comment.drop docOpener.length)).map fun (inner, _) => docOpener ++ inner ++ closer
  | none => none

/-- The comment in an answer: its first documentation comment, or, if it only continues one, the
answer with the marks added that it lacks. -/
def sanitize? (answer : Text) : Option Text :=
  let text := stripFence answer.trim
  match firstDoc? text with
  | some comment => some comment
  | none =>
    if ['*'].isPrefixOf text then
      let close := if closer.isSuffixOf text then [] else '\n' :: closer
      some (docOpener ++ ['\n'] ++ text ++ close)
    else none

end DocBlocks.Comment
