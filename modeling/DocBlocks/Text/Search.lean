import DocBlocks.Text.Blank

/-!
# Searching a text

Finding a mark in a text, and taking a text apart into lines and words.

## Main definitions

* `Text.breakAt?`, `Text.breakAtLast?`: the first and the last place where a mark stands.
* `Text.splitBehindLast`: a text cut behind the last occurrence of a mark.
* `Text.splitLastLine`: a text cut at the start of its last line.
* `Text.words`: the parts of a text between white space.
-/

namespace DocBlocks.Text

/-- The text in front of the first occurrence of `mark`, and the text from there on. -/
def breakAt? (mark : Text) : Text → Option (Text × Text)
  | [] => if mark = [] then some ([], []) else none
  | c :: t =>
    if mark.isPrefixOf (c :: t) then some ([], c :: t)
    else (breakAt? mark t).map fun (front, rest) => (c :: front, rest)

/-- The text in front of the last occurrence of `mark`, and the text from there on. -/
def breakAtLast? (mark : Text) : Text → Option (Text × Text)
  | [] => if mark = [] then some ([], []) else none
  | c :: t =>
    match breakAtLast? mark t with
    | some (front, rest) => some (c :: front, rest)
    | none => if mark.isPrefixOf (c :: t) then some ([], c :: t) else none

/-- A text cut behind the last occurrence of `mark`, or at its start if there is none. -/
def splitBehindLast (mark t : Text) : Text × Text :=
  match breakAtLast? mark t with
  | some (front, rest) => (front ++ mark, rest.drop mark.length)
  | none => ([], t)

/-- A text cut at the start of its last line. The first part is empty or ends with a line feed, the
second has no line feed. -/
def splitLastLine : Text → Text × Text
  | [] => ([], [])
  | c :: t =>
    match splitLastLine t with
    | ([], line) => if c = '\n' then ([c], line) else ([], c :: line)
    | (lines, line) => (c :: lines, line)

/-- The parts of a text between white space. -/
def words (t : Text) : List Text :=
  (t.splitOnP isWhite).filter (· ≠ [])

end DocBlocks.Text
