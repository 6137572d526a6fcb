import DocBlocks.Comment.Preceding

/-!
# Indented comments

Brings the lines of a block comment into one form: the opener, then lines with a star, each behind
the same indentation.
-/

namespace DocBlocks.Comment

/-- A line without white space at its ends, behind an indentation. Below the opener a line carries a
star, one place further in. -/
def indentLine (indent line : Text) : Text :=
  if docOpener.isPrefixOf line then indent ++ line
  else if ['*'].isPrefixOf line then indent ++ [' '] ++ line
  else indent ++ [' ', '*', ' '] ++ line

/-- The lines of a text without the white space at their ends, blank lines left out. -/
def contentLines (block : Text) : List Text :=
  ((block.splitOn '\n').map Text.trim).filter (· ≠ [])

/-- A comment with each of its lines behind `indent`. -/
def reindent (block indent : Text) : Text :=
  ['\n'].intercalate ((contentLines block).map (indentLine indent))

end DocBlocks.Comment
