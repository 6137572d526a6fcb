import DocBlocks.Text.Basic

/-!
# Dialects

The three languages a source may be written in, and how a file name tells which one it is.
-/

namespace DocBlocks

/-- The language a source is read in. -/
inductive Dialect where
  | javaScript
  | typeScript
  /-- TypeScript with markup in expressions. -/
  | tsx
  deriving DecidableEq, Repr, Inhabited

namespace Dialect

/-- The name of a dialect in messages. -/
def name : Dialect → String
  | javaScript => "JavaScript"
  | typeScript => "TypeScript"
  | tsx => "Tsx"

/-- Whether the dialect has declared types. -/
def typed : Dialect → Bool
  | javaScript => false
  | _ => true

/-- Whether the dialect has markup in expressions. -/
def markup : Dialect → Bool
  | typeScript => false
  | _ => true

/-- The dialect that belongs to a file extension, written with or without leading dots. -/
def ofExtension? (extension : Text) : Option Dialect :=
  let bare := String.ofList (extension.dropWhile (· = '.'))
  if bare = "js" ∨ bare = "jsx" then some javaScript
  else if bare = "ts" then some typeScript
  else if bare = "tsx" then some tsx
  else none

end Dialect

end DocBlocks
