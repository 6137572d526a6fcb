import DocBlocks.Text.Basic

/-!
# Splicing

Puts texts into a source. The places of all edits refer to the source as it was, so while the text
grows and shrinks a running shift maps them into it.

## Main definitions

* `Edit`: a block to be placed in a source.
* `sortEdits`: edits in the order of their places.
* `Spliced`: a source with its edits made.
* `splice?`: makes edits in a source.
-/

namespace DocBlocks

/-- A block to be placed in a source, with the place it goes to and the start of the text it
replaces. -/
structure Edit where
  /-- What the block is about. -/
  name : Text
  point : Nat
  /-- Equal to `point` if nothing is replaced. -/
  replaceFrom : Nat
  block : Text
  deriving DecidableEq, Repr, Inhabited

namespace Edit

/-- Adds an edit in front of the first whose place is not before its own. -/
def insert (e : Edit) : List Edit → List Edit
  | [] => [e]
  | d :: ds => if e.point ≤ d.point then e :: d :: ds else d :: insert e ds

end Edit

/-- Edits in the order of their places. Edits at one place keep their order. -/
def sortEdits (edits : List Edit) : List Edit := edits.foldr Edit.insert []

/-- A source with edits made, and one line of report for each edit. -/
structure Spliced where
  text : Text
  report : List Text
  deriving DecidableEq, Repr, Inhabited

namespace Splice

/-- The value nearest to `n` from `low` to `high`. There is none if these are in the wrong order. -/
def clamp? (low high n : Nat) : Option Nat :=
  if low ≤ high then some (max low (min n high)) else none

/-- A text with `new` in place of the bytes from `start` to `stop`. -/
def replace? (t : Text) (start stop : Nat) (new : Text) : Option Text :=
  match t.splitAt? start, t.splitAt? stop with
  | some (front, _), some (_, back) => if start ≤ stop then some (front ++ new ++ back) else none
  | _, _ => none

/-- A splice under way: the text so far, how far places behind the last edit have moved in it, the
place of the last edit, and the report so far. -/
structure State where
  text : Text
  shift : Int
  last : Nat
  report : List Text

/-- The line of the report on an edit that replaces the bytes from `start` on. -/
def reportLine (e : Edit) (start line : Nat) : Text :=
  let verb := if start < e.point then "Replace" else "Add"
  verb.toList ++ " comment for ".toList ++ e.name ++ " at line ".toList ++ (toString line).toList

/-- Makes one edit. It replaces no text in front of the place of the edit before it. -/
def step? (source : Text) (s : State) (e : Edit) : Option State := do
  let start ← clamp? s.last e.point e.replaceFrom
  let new := e.block ++ ['\n']
  let text ← replace? s.text (← (start + s.shift).toNat?) (← (e.point + s.shift).toNat?) new
  let (before, _) ← source.splitAt? e.point
  return { text := text
           shift := s.shift + new.bytes - (e.point - start : Nat)
           last := e.point
           report := s.report ++ [reportLine e start (Text.lineBreaks before + 1)] }

end Splice

/-- Makes edits in a source. There is no result if the source cannot be cut at one of their
places. -/
def splice? (source : Text) (edits : List Edit) : Option Spliced :=
  ((sortEdits edits).foldlM (Splice.step? source) ⟨source, 0, 0, []⟩).map fun s => ⟨s.text, s.report⟩

end DocBlocks
