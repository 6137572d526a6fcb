/-!
# Text and byte offsets

A text is a list of characters. Places in a text are counted in bytes of its UTF-8 encoding, so a
place may fall inside a character; the operations that cut a text refuse such a place.

## Main definitions

* `Text`, `Text.bytes`: texts and their length in bytes.
* `Text.splitAt?`: the two halves of a text at a byte offset.
* `Text.slice?`: the part of a text between two byte offsets.
* `Text.lineBreaks`: the number of line feeds.
-/

namespace DocBlocks

/-- A text, character by character. -/
abbrev Text := List Char

/-- A half-open range of byte offsets. -/
structure Span where
  start : Nat
  stop : Nat
  deriving DecidableEq, Repr, Inhabited

namespace Text

/-- The number of bytes in the UTF-8 encoding of a text. -/
def bytes : Text → Nat
  | [] => 0
  | c :: t => c.utf8Size + bytes t

/-- The text before and the text behind byte `n`. There is none if `n` is beyond the end or inside a
character. -/
def splitAt? : Text → Nat → Option (Text × Text)
  | t, 0 => some ([], t)
  | [], _ + 1 => none
  | c :: t, n + 1 =>
    if c.utf8Size ≤ n + 1 then
      (splitAt? t (n + 1 - c.utf8Size)).map fun (a, b) => (c :: a, b)
    else none

/-- The text from byte `start` to byte `stop`. There is none if the range is empty backwards, beyond
the end, or cuts a character. -/
def slice? (t : Text) (start stop : Nat) : Option Text :=
  if start ≤ stop then
    match splitAt? t start with
    | some (_, rest) => (splitAt? rest (stop - start)).map Prod.fst
    | none => none
  else none

/-- The number of line feeds in a text. -/
def lineBreaks (t : Text) : Nat :=
  t.count '\n'

@[simp] theorem bytes_nil : bytes [] = 0 := rfl

@[simp] theorem bytes_cons (c : Char) (t : Text) : bytes (c :: t) = c.utf8Size + bytes t := rfl

@[simp] theorem bytes_append (a b : Text) : bytes (a ++ b) = bytes a + bytes b := by
  induction a with
  | nil => simp
  | cons c a ih => simp [ih, Nat.add_assoc]

end Text

end DocBlocks
