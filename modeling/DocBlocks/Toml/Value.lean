import DocBlocks.Number.Binary
import DocBlocks.Text.Basic

/-!
# TOML values

What a TOML document holds: values, and tables that were written in different ways. How a table was
written decides whether a later line may add to it.

## Main definitions

* `Toml.Value`, `Toml.Table`: values, and the keys of a table with their values.
* `Toml.insert?`: adds a value under a dotted key.
* `Toml.openTable?`, `Toml.openRow?`: what the header of a table does to a document.
-/

namespace DocBlocks.Toml

/-- How a table came about. -/
inductive Origin where
  /-- Written within braces. -/
  | literal
  /-- Named by a header. -/
  | header
  /-- Part of the path in a header. -/
  | implied
  /-- Part of a dotted key. -/
  | dotted
  deriving DecidableEq, Repr, Inhabited

/-- A value of a document. -/
inductive Value where
  | string (t : Text)
  | integer (i : Int)
  | float (x : Binary)
  | boolean (b : Bool)
  /-- A date or a time. -/
  | moment
  | array (items : List Value)
  | table (origin : Origin) (entries : List (Text × Value))
  /-- Tables under one name, each opened by a header of its own. -/
  | rows (tables : List (List (Text × Value)))
  deriving Inhabited

/-- The keys of a table with their values. -/
abbrev Table := List (Text × Value)

/-- A table with another value under a key that it has. -/
def put (t : Table) (key : Text) (v : Value) : Table :=
  t.map fun (k, w) => if k = key then (k, v) else (k, w)

/-- Changes the last of several tables. -/
def changeLast? (change : Table → Option Table) (tables : List Table) : Option (List Table) :=
  match tables.getLast? with
  | some last => (change last).map fun new => tables.dropLast ++ [new]
  | none => none

/-- Adds a value to a table, under a key that it does not have yet. The path leads to the table
through tables that other dotted keys have made, or makes them. It may pass through tables that a
header has implied, but not end there. -/
def insert? (path : List Text) (key : Text) (v : Value) (t : Table) : Option Table :=
  match path with
  | [] => if (t.lookup key).isSome then none else some (t ++ [(key, v)])
  | k :: path =>
    match t.lookup k with
    | none => (insert? path key v []).map fun new => t ++ [(k, .table .dotted new)]
    | some (.table .dotted sub) => (insert? path key v sub).map fun new => put t k (.table .dotted new)
    | some (.table .implied sub) =>
      if path = [] then none
      else (insert? path key v sub).map fun new => put t k (.table .implied new)
    | some (.rows tables) =>
      if path = [] then none
      else (changeLast? (insert? path key v) tables).map fun new => put t k (.rows new)
    | some _ => none

/-- Changes the table that the path of a header leads to. Tables on the way that are not there yet
are implied; of several tables under one name the last is meant. -/
def within? (change : Table → Option Table) (path : List Text) (t : Table) : Option Table :=
  match path with
  | [] => change t
  | k :: path =>
    match t.lookup k with
    | none => (within? change path []).map fun new => t ++ [(k, .table .implied new)]
    | some (.table .literal _) => none
    | some (.table origin sub) => (within? change path sub).map fun new => put t k (.table origin new)
    | some (.rows tables) =>
      (changeLast? (within? change path) tables).map fun new => put t k (.rows new)
    | some _ => none

/-- Names a table by a header. A table can be named once; it may have been implied before. -/
def openTable? (path : List Text) (key : Text) : Table → Option Table :=
  within? (fun t =>
    match t.lookup key with
    | none => some (t ++ [(key, .table .header [])])
    | some (.table .implied sub) => some (put t key (.table .header sub))
    | some _ => none) path

/-- Adds an empty table to those that share a name. -/
def openRow? (path : List Text) (key : Text) : Table → Option Table :=
  within? (fun t =>
    match t.lookup key with
    | none => some (t ++ [(key, .rows [[]])])
    | some (.rows tables) => some (put t key (.rows (tables ++ [[]])))
    | some _ => none) path

end DocBlocks.Toml
