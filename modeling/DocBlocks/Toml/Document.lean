import DocBlocks.Toml.Scalar

/-!
# TOML documents

Reads a whole document.

## Main definitions

* `Toml.value?`: reads a value of any kind.
* `Toml.document?`: reads a document.
-/

namespace DocBlocks.Toml

/-! ## Values -/

/-- The values of an array behind its bracket, each read by `item`. A comma may stand behind the
last one. -/
def items? (item : Text → Option (Value × Text)) : Nat → Text → Option (List Value × Text)
  | 0, _ => none
  | fuel + 1, t =>
    match skipLoose false t with
    | ']' :: t => some ([], t)
    | t => do
      let (v, t) ← item t
      match skipLoose false t with
      | ',' :: t =>
        let (vs, t) ← items? item fuel t
        return (v :: vs, t)
      | ']' :: t => return ([v], t)
      | _ => none

/-- A key with its value, added to a table. -/
def pair? (item : Text → Option (Value × Text)) (entries : Table) (t : Text) : Option (Table × Text) := do
  let (path, key, t) ← key? t
  let t ← exactly? '=' t
  let (v, t) ← item (skipBlank t)
  return (← insert? path key v entries, skipBlank t)

/-- The pairs of a table within braces, behind its first brace, added to those already read. -/
def pairs? (item : Text → Option (Value × Text)) : Nat → Table → Text → Option (Table × Text)
  | 0, _, _ => none
  | fuel + 1, entries, t => do
    let (entries, t) ← pair? item entries t
    match t with
    | ',' :: t => pairs? item fuel entries t
    | '\x7d' :: t => return (entries, t)
    | _ => none

/-- A table within braces, behind its first brace. -/
def braces? (item : Text → Option (Value × Text)) (t : Text) : Option (Table × Text) :=
  match skipBlank t with
  | '\x7d' :: t => some ([], t)
  | t => pairs? item (t.length + 1) [] t

/-- A value. Arrays and tables lie within one another up to `depth` times. -/
def value? : Nat → Text → Option (Value × Text)
  | depth, '[' :: t =>
    match depth with
    | 0 => none
    | depth + 1 => (items? (value? depth) (t.length + 1) t).map fun (vs, t) => (.array vs, t)
  | depth, '\x7b' :: t =>
    match depth with
    | 0 => none
    | depth + 1 => (braces? (value? depth) t).map fun (es, t) => (.table .literal es, t)
  | _, t =>
    match string? t, moment? t, "true".toList.isPrefixOf? t, "false".toList.isPrefixOf? t with
    | some (s, t), _, _, _ => some (.string s, t)
    | _, some t, _, _ => some (.moment, t)
    | _, _, some t, _ => some (.boolean true, t)
    | _, _, _, some t => some (.boolean false, t)
    | _, _, _, _ => number? t

/-- How far arrays and tables may lie within one another. -/
def maxDepth : Nat := 79

/-! ## Lines -/

/-- A document under way: its tables so far, and the path of the table that lines belong to. -/
structure Draft where
  root : Table
  current : List Text

/-- A header behind its opening brackets. -/
def header? (isRow : Bool) (d : Draft) (t : Text) : Option (Draft × Text) := do
  let (path, key, t) ← key? t
  let t ← exactly? ']' t
  let t ← if isRow then exactly? ']' t else some t
  let root ← (if isRow then openRow? else openTable?) path key d.root
  return (⟨root, path ++ [key]⟩, ← endLine? t)

/-- A key with its value on a line. -/
def assignment? (d : Draft) (t : Text) : Option (Draft × Text) := do
  let (path, key, t) ← key? t
  let t ← exactly? '=' t
  let (v, t) ← value? maxDepth (skipBlank t)
  let root ← within? (insert? path key v) d.current d.root
  return (⟨root, d.current⟩, ← endLine? t)

/-- One line of a document. -/
def line? (d : Draft) (t : Text) : Option (Draft × Text) :=
  match endLine? t with
  | some rest => some (d, rest)
  | none =>
    match skipBlank t with
    | '[' :: '[' :: t => header? true d t
    | '[' :: t => header? false d t
    | t => assignment? d t

/-- The lines of a document. -/
def lines? : Nat → Draft → Text → Option Draft
  | 0, _, _ => none
  | fuel + 1, d, t =>
    if t = [] then some d
    else
      match line? d t with
      | some (d, rest) => lines? fuel d rest
      | none => none

/-- A document. A byte order mark in front of it does not count. -/
def document? (t : Text) : Option Table :=
  let t := (['\ufeff'].isPrefixOf? t).getD t
  (lines? (t.length + 1) ⟨[], []⟩ t).map Draft.root

end DocBlocks.Toml
