import DocBlocks.Text.Basic

/-!
# JSON values

The values that services exchange.
-/

namespace DocBlocks

/-- A JSON value. A number is kept as it is written. -/
inductive Json where
  | null
  | boolean (b : Bool)
  | number (t : Text)
  | string (t : Text)
  | array (items : List Json)
  | object (fields : List (Text × Json))
  deriving Inhabited

namespace Json

/-- The value under a key of an object. Of several the last one counts. -/
def field? (key : String) : Json → Option Json
  | object fields => fields.reverse.lookup key.toList
  | _ => none

/-- The first value of an array. -/
def first? : Json → Option Json
  | array items => items.head?
  | _ => none

/-- The text of a string. -/
def string? : Json → Option Text
  | string t => some t
  | _ => none

end Json

end DocBlocks
