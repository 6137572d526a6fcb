import DocBlocks.Syntax.Tree
import DocBlocks.Text.Basic

/-!
# Readers

A rule reads a prefix of the remaining text and answers with the trees it built, or refuses. The
trees of a rule come with the comments that stood before them, so nothing but blanks is ever
dropped.

Every cursor carries the *trail*, the trees read so far that are not yet part of a larger one, and
remembers the *frontier*: the furthest token that some rule refused, and the trail in front of it.
When a whole source is refused, the frontier tells where.

## Main definitions

* `Piece`, `Frontier`: a tree on the trail, and a refused token.
* `Cursor`, `Reply`, `Rule`: what a rule reads from, answers, and is.
* `seq`, `oneOf`, `opt`, `many`, `sepBy`: sequence, ordered choice and repetition.
* `node`, `role`: building a named node, naming a part.
-/

namespace DocBlocks.Grammar

open Syntax

/-- What counts as one tree on the trail: a single tree, or neighbours in a list of statements or
members, the last one first. -/
structure Piece where
  trees : List Tree
  listed : Bool := false
  deriving Repr, Inhabited

namespace Piece

/-- The first byte of a piece. -/
def start (p : Piece) : Nat := (p.trees.getLast?.map Tree.start).getD 0

/-- The byte behind the last one of a piece. -/
def stop (p : Piece) : Nat := (p.trees.head?.map Tree.stop).getD 0

/-- The trail with one more list item at its end. -/
def withItem (trail : List Piece) (t : Tree) : List Piece :=
  match trail with
  | p :: ps => if p.listed then ⟨t :: p.trees, true⟩ :: ps else ⟨[t], true⟩ :: trail
  | [] => [⟨[t], true⟩]

end Piece

/-- A refused token: where it starts, where the token before it ended, the trail up to there, the
last piece first, and whether a statement ended between the two tokens. -/
structure Frontier where
  token : Nat := 0
  behind : Nat := 0
  trail : List Piece := []
  ended : Bool := false
  deriving Repr, Inhabited

/-- The further of two frontiers. Of two at the same token, one where a statement has ended counts,
else the first. -/
def Frontier.furthest (a b : Frontier) : Frontier :=
  if a.token < b.token ∨ (a.token = b.token ∧ !a.ended ∧ b.ended) then b else a

/-- The text still to be read, the byte offset it starts at, the trail up to there, whether a
statement ended behind the last token, and the furthest refusal so far. -/
structure Cursor where
  rest : Text
  offset : Nat
  trail : List Piece := []
  ended : Bool := false
  seen : Frontier := {}
  deriving Inhabited

namespace Cursor

/-- The cursor behind a prefix of its text. -/
def past (c : Cursor) (lexeme rest : Text) : Cursor :=
  { c with rest := rest, offset := c.offset + lexeme.bytes }

/-- The cursor with one more tree on its trail. -/
def withTree (c : Cursor) (t : Tree) : Cursor :=
  { c with trail := ⟨[t], false⟩ :: c.trail, ended := false }

/-- The furthest refusal, once the token at byte `token` is refused too. -/
def refusing (c : Cursor) (token : Nat) : Frontier :=
  c.seen.furthest ⟨token, c.offset, c.trail, c.ended⟩

/-- The cursor where everything read from the start of a tree on is that tree. -/
def gathered (c : Cursor) (t : Tree) : Cursor :=
  { c with trail := ⟨[t], false⟩ :: c.trail.dropWhile fun p => t.start ≤ p.start }

end Cursor

/-- The answer of a rule. -/
inductive Reply where
  | accepted (forest : List Tree) (next : Cursor)
  | refused (seen : Frontier)
  deriving Inhabited

/-- A rule of the grammar. -/
abbrev Rule := Cursor → Reply

/-- Reads nothing. -/
def done : Rule := fun c => .accepted [] c

/-- Reads nothing and answers with what was read before. -/
def keeping (forest : List Tree) : Rule := fun c => .accepted forest c

/-- Accepts nothing. -/
def refuse : Rule := fun c => .refused c.seen

/-- Reads with `p`, then with a rule that may depend on what `p` read and answers for both. -/
def continueWith (p : Rule) (f : List Tree → Rule) : Rule := fun c =>
  match p c with
  | .accepted forest next => f forest next
  | .refused seen => .refused seen

/-- Puts trees in front of what a rule reads. -/
def after (forest : List Tree) (p : Rule) : Rule := fun c =>
  match p c with
  | .accepted more next => .accepted (forest ++ more) next
  | .refused seen => .refused seen

/-- Reads with one rule after the other. -/
def seq : List Rule → Rule
  | [] => done
  | [p] => p
  | p :: ps => continueWith p fun forest => after forest (seq ps)

/-- Reads with the first rule that accepts. -/
def oneOf : List Rule → Rule
  | [] => refuse
  | [p] => p
  | p :: ps => fun c =>
    match p c with
    | .accepted forest next => .accepted forest next
    | .refused seen => oneOf ps { c with seen := seen }

/-- Reads with `p`, or nothing. -/
def opt (p : Rule) : Rule := oneOf [p, done]

/-- Reads with `p` up to `n` times. -/
def upTo (p : Rule) : Nat → Rule
  | 0 => done
  | n + 1 => fun c =>
    match p c with
    | .accepted forest next => after forest (upTo p n) next
    | .refused seen => .accepted [] { c with seen := seen }

/-- Reads with `p` as often as it accepts. -/
def many (p : Rule) : Rule := fun c => upTo p c.rest.length c

/-- Reads with `p` once or more often. -/
def many1 (p : Rule) : Rule := seq [p, many p]

/-- Reads `p` once or more often, separated by `sep`. -/
def sepBy1 (p sep : Rule) : Rule := seq [p, many (seq [sep, p])]

/-- Reads `p` any number of times, separated by `sep`. -/
def sepBy (p sep : Rule) : Rule := opt (sepBy1 p sep)

/-- Lets `grow` enlarge what has been read, up to `n` times. -/
def growUpTo (grow : List Tree → Rule) : Nat → List Tree → Rule
  | 0, forest => fun c => .accepted forest c
  | n + 1, forest => fun c =>
    match grow forest c with
    | .accepted larger next => growUpTo grow n larger next
    | .refused seen => .accepted forest { c with seen := seen }

/-- Lets `grow` enlarge what has been read as often as it accepts. -/
def growing (grow : List Tree → Rule) (forest : List Tree) : Rule := fun c =>
  growUpTo grow c.rest.length forest c

/-- Reads nothing, and only where `p` would accept. -/
def ahead (p : Rule) : Rule := fun c =>
  match p c with
  | .accepted _ _ => .accepted [] c
  | .refused _ => .refused c.seen

/-- Reads nothing, and only where `p` would refuse. -/
def notAhead (p : Rule) : Rule := fun c =>
  match p c with
  | .accepted _ _ => .refused c.seen
  | .refused _ => .accepted [] c

/-- Reads nothing, and only where the cursor satisfies `p`. -/
def whereSo (p : Cursor → Bool) : Rule := fun c =>
  if p c then .accepted [] c else .refused c.seen

/-- The trees as the parts of one node. Comments in front stay in front of the node. -/
def wrap (k : Kind) (forest : List Tree) : List Tree :=
  let lead := forest.takeWhile Tree.isComment
  match forest.dropWhile Tree.isComment with
  | [] => lead
  | t :: ts => lead ++ [.mk (.node k) none false t.start ((t :: ts).getLast (by simp)).stop (t :: ts)]

/-- The last tree that is no comment. -/
def head? (forest : List Tree) : Option Tree :=
  forest.reverse.find? fun t => !t.isComment

/-- Reads a node of kind `k` whose parts `p` reads. -/
def node (k : Kind) (p : Rule) : Rule := fun c =>
  match p c with
  | .accepted forest next =>
    let forest := wrap k forest
    .accepted forest (((head? forest).map next.gathered).getD next)
  | .refused seen => .refused seen

/-- Reads an item of a list with `p`. -/
def item (p : Rule) : Rule := fun c =>
  match p c with
  | .accepted forest next =>
    .accepted forest
      (((head? forest).map fun t => { next with trail := Piece.withItem c.trail t }).getD next)
  | .refused seen => .refused seen

/-- Trees that are no comments, in role `r`. -/
def inRole (r : Role) (forest : List Tree) : List Tree :=
  forest.map fun t => if t.isComment then t else t.withRole r

/-- Reads with `p` what plays the part `r`. -/
def role (r : Role) (p : Rule) : Rule := fun c =>
  match p c with
  | .accepted forest next => .accepted (inRole r forest) next
  | .refused seen => .refused seen

/-- Reads with `p`, and changes the tree it built; refuses where there is no change to make. -/
def converting (p : Rule) (change : Tree → Option Tree) : Rule := fun c =>
  match p c with
  | .refused seen => .refused seen
  | .accepted forest next =>
    match forest.reverse with
    | [] => .refused next.seen
    | t :: lead =>
      match change t with
      | some t' => .accepted (lead.reverse ++ [t']) next
      | none => .refused ({ next with offset := t.start }.refusing t.start)

end DocBlocks.Grammar
