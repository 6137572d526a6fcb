import DocBlocks.Text.Basic

/-!
# Code units

What a documentation comment can be written for: a function declaration, a method of a class, or an
arrow function that initialises a variable.

## Main definitions

* `CodeUnit`: what is known about one such piece of code.
* `Parameter`: one of its parameters.
-/

namespace DocBlocks

/-- The shape of a code unit. -/
inductive CodeUnit.Shape where
  | function
  | method
  | arrow
  deriving DecidableEq, Repr, Inhabited

/-- The shape in words. -/
def CodeUnit.Shape.label : CodeUnit.Shape → String
  | function => "function"
  | method => "method"
  | arrow => "arrow function"

/-- A parameter: its name, or a placeholder for a pattern, with its type and its default as
written. -/
structure Parameter where
  name : Text
  type : Option Text := none
  default : Option Text := none
  deriving DecidableEq, Repr, Inhabited

/-- A piece of code that can carry a documentation comment. -/
structure CodeUnit where
  name : Text
  shape : CodeUnit.Shape
  parameters : List Parameter
  /-- The declared result type, without the colon. -/
  returnType : Option Text
  /-- The bytes of the source it covers. -/
  span : Span
  isAsync : Bool
  /-- Names called in its body. -/
  called : List Text
  /-- A sentence about it; empty until one is made. -/
  summary : Text := []
  deriving DecidableEq, Repr, Inhabited

namespace CodeUnit

/-- The name of a unit that has none of its own. -/
def anonymous : Text := "anonymous".toList

/-- The number of called names that are kept. -/
def maxCalled : Nat := 8

/-- The text of a unit in its source, empty if its span does not fit. -/
def text (u : CodeUnit) (source : Text) : Text :=
  (source.slice? u.span.start u.span.stop).getD []

end CodeUnit

end DocBlocks
