import DocBlocks.CodeUnit
import DocBlocks.Text.Blank

/-!
# Blocks made from units

The documentation comment that can be made from what is known about a unit alone.

## Main definitions

* `CodeUnit.blockLines`: the lines of the comment.
* `CodeUnit.block`: the comment behind an indentation.
-/

namespace DocBlocks

namespace Parameter

/-- What is said about a parameter. -/
def remark (p : Parameter) : Text :=
  if p.name = "options".toList ∨ p.name = "config".toList then "Configuration options.".toList
  else "TODO: describe.".toList

/-- The line about a parameter. A default is shown behind the name, in brackets. -/
def line (p : Parameter) : Text :=
  let type := match p.type with
    | some t => ['\x7b'] ++ t ++ ['\x7d', ' ']
    | none => []
  let name := match p.default with
    | some d => ['['] ++ p.name ++ ['='] ++ d ++ [']']
    | none => p.name
  " * @param ".toList ++ type ++ name ++ " - ".toList ++ p.remark

end Parameter

namespace CodeUnit

/-- The sentence that opens the comment, or a reminder to write one. -/
def opening (u : CodeUnit) : Text :=
  if u.summary.all Text.isWhite then "TODO: Add description".toList else u.summary

/-- The lines of the comment made from what is known about a unit. -/
def blockLines (u : CodeUnit) : List Text :=
  ["/**".toList, " * ".toList ++ u.opening] ++
    (if u.isAsync then [" * @async".toList] else []) ++
    u.parameters.map Parameter.line ++
    (u.returnType.map fun t => " * @returns \x7b".toList ++ t ++ ['\x7d']).toList ++
    [" */".toList]

/-- The comment made from what is known about a unit, each of its lines behind `indent`. -/
def block (u : CodeUnit) (indent : Text) : Text :=
  ['\n'].intercalate (u.blockLines.map (indent ++ ·))

end CodeUnit

end DocBlocks
