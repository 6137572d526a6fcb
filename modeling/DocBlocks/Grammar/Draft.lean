import DocBlocks.Grammar.Parse

/-!
# Drafts

A draft is a source with the repairs made so far. It is as long as the source but for the marks put
in, because blanks take the place of what is left out; so every place in a draft belongs to a place
in the source.

## Main definitions

* `Fault`: where a source goes wrong, and how.
* `Draft`: a source with the repairs made so far.
* `fits`: whether a token may follow a text.
-/

namespace DocBlocks.Grammar

open Syntax

/-! ## Tokens -/

/-- The length of the token at the start of a text, in characters. -/
def tokenLength (t : Text) : Nat :=
  match name? t with
  | some (lexeme, _) => lexeme.length
  | none =>
    match number? t with
    | some (lexeme, _) => lexeme.length
    | none => ((punctuator? t).map (fun s => s.toList.length)).getD (min 1 t.length)

/-- Where a token starts and stops, where the token or comment before it stopped, and how many
comments stand in front of it. The end of a source is an empty token. -/
structure Token where
  behind : Nat
  start : Nat
  stop : Nat
  comments : Nat
  deriving DecidableEq, Repr, Inhabited

/-- The next `n` tokens, the end of the source among them. -/
def tokensFrom : Nat → Cursor → List Token
  | 0, _ => []
  | n + 1, c =>
    let (lead, here) := skipTrivia c
    let k := tokenLength here.rest
    let next := here.past (here.rest.take k) (here.rest.drop k)
    let behind := (lead.getLast?.map Tree.stop).getD c.offset
    ⟨behind, here.offset, next.offset, lead.length⟩ :: if here.rest.isEmpty then [] else tokensFrom n next

/-- The first byte of a text that is neither blank nor in a comment. -/
def firstToken (t : Text) : Nat := (skipTrivia { rest := t, offset := 0 }).2.offset

/-! ## Drafts -/

/-- A place where something is missing, or where text starts that has no place. -/
structure Fault where
  missing : Bool
  start : Nat
  deriving DecidableEq, Repr, Inhabited

/-- The earlier of two faults, the first one if both are at one place. -/
def Fault.earlier (a b : Fault) : Fault := if b.start < a.start then b else a

/-- A source with the repairs made so far. -/
structure Draft where
  text : Text
  /-- Where marks were put in, each behind a blank of its own. -/
  marks : List Nat := []
  /-- The first fault, as a place in the source. -/
  fault : Option Fault := none
  cost : Nat := 0
  /-- Where the text left out last ended. -/
  settled : Nat := 0
  deriving Repr, Inhabited

namespace Draft

/-- The part of a draft between two places. -/
def part (x : Draft) (start stop : Nat) : Text := (x.text.slice? start stop).getD []

/-- The place in the source of a place in the draft. -/
def origin (x : Draft) (n : Nat) : Nat := n - 2 * x.marks.countP (· < n)

/-- The draft with one more fault, at byte `n`. -/
def withFault (x : Draft) (missing : Bool) (n : Nat) : Draft :=
  let found : Fault := ⟨missing, x.origin n⟩
  { x with fault := some ((x.fault.map fun f => f.earlier found).getD found) }

/-- The draft with `mark` put in at byte `n`, behind the blank `gap`. -/
def insert (x : Draft) (n : Nat) (gap mark : Char) : Draft :=
  { x.withFault true n with
    text := x.part 0 n ++ gap :: mark :: x.part n x.text.bytes
    marks := n :: x.marks.map fun m => if m < n then m else m + 2 }

/-- The draft with the text between two places left out, and the blank `gap` at its start. What has
no place starts at byte `n`. -/
def leaveOut (x : Draft) (start stop n : Nat) (gap : Char) : Draft :=
  let blanks := (gap :: List.replicate (stop - start) ' ').take (stop - start)
  { x.withFault false n with
    text := x.part 0 start ++ blanks ++ x.part stop x.text.bytes
    settled := stop }

/-- The tokens of a draft from byte `n` on. -/
def tokens (x : Draft) (n : Nat) : List Token :=
  let rest := x.part n x.text.bytes
  tokensFrom (rest.length + 1) { rest := rest, offset := n }

/-- Whether a token is a slash right behind the token before it. -/
def isJoinedSlash (x : Draft) (t : Token) : Bool := t.behind = t.start && x.part t.start t.stop = ['/']

end Draft

/-! ## What may follow -/

/-- A blank that lets no statement end in front of the token behind it. -/
def joint : Char := Char.ofNat 0x200B

/-- Whether reading the text goes on past byte `n`. -/
def readsPast (d : Dialect) (source : Text) (n : Nat) : Bool :=
  match readProgram d source with
  | .ok _ => true
  | .error f => n < f.token

/-- Whether the token `next`, with the blanks in front of it, may follow the text `before`. -/
def fits (d : Dialect) (before lead next : Text) : Bool :=
  readsPast d (before ++ joint :: lead ++ next) (before.bytes + joint.utf8Size + lead.bytes)

end DocBlocks.Grammar
