import DocBlocks.Syntax.Kind

/-!
# Syntax trees

A syntax tree is a label, the byte range it covers, and its parts in source order. Comments are
parts like any other, so a tree accounts for every byte of its source that is not blank.

A node is *missing* when a reader had to invent it, and *erroneous* when it holds text the grammar
has no place for. A tree with neither is sound.

## Main definitions

* `Tree`: the trees, with the accessors `Tree.kind?`, `Tree.named`, `Tree.part?`.
* `Tree.hasError`: some node of the tree is erroneous or missing.
* `Tree.firstFault?`: the start of the first such node in pre-order.
-/

namespace DocBlocks.Syntax

/-- A node of a syntax tree. The range `start`–`stop` is in bytes and half open. -/
inductive Tree where
  | mk (label : Label) (role : Option Role) (missing : Bool) (start stop : Nat) (parts : List Tree)
  deriving Repr, Inhabited

namespace Tree

/-- The label of the root. -/
def label : Tree → Label
  | mk l _ _ _ _ _ => l

/-- The part of its parent that the root fills. -/
def role : Tree → Option Role
  | mk _ r _ _ _ _ => r

/-- Whether the root was invented by the reader. -/
def missing : Tree → Bool
  | mk _ _ m _ _ _ => m

/-- The first byte of the root. -/
def start : Tree → Nat
  | mk _ _ _ s _ _ => s

/-- The byte behind the root's last one. -/
def stop : Tree → Nat
  | mk _ _ _ _ s _ => s

/-- The parts of the root, in source order. -/
def parts : Tree → List Tree
  | mk _ _ _ _ _ ps => ps

/-- A token or another node without parts. -/
def leaf (label : Label) (start stop : Nat) : Tree :=
  mk label none false start stop []

/-- The tree in the given role. -/
def withRole (r : Role) : Tree → Tree
  | mk l _ m s e ps => mk l (some r) m s e ps

/-- The kind of the root, if it is a named node. -/
def kind? (t : Tree) : Option Kind :=
  match t.label with
  | .node k => some k
  | .token _ => none

/-- Whether the root is a named node. -/
def named (t : Tree) : Bool :=
  t.kind?.isSome

/-- Whether the root is a named node of kind `k`. -/
def hasKind (t : Tree) (k : Kind) : Bool :=
  t.label = .node k

/-- Whether the root is the bare token spelled `spelling`. -/
def isToken (t : Tree) (spelling : String) : Bool :=
  t.label = .token spelling

/-- Whether the root is a comment. -/
def isComment (t : Tree) : Bool :=
  t.hasKind .comment || t.hasKind .htmlComment

/-- The named parts of the root. -/
def namedParts (t : Tree) : List Tree :=
  t.parts.filter named

/-- The first part in role `r`. -/
def part? (t : Tree) (r : Role) : Option Tree :=
  t.parts.find? fun p => p.role = some r

/-- Whether the root itself is erroneous or missing. -/
def faulty (t : Tree) : Bool :=
  t.hasKind .error || t.missing

mutual

/-- Some node of the tree is erroneous or missing. -/
def hasError : Tree → Bool
  | mk l _ m _ _ ps => decide (l = .node .error) || m || anyError ps

/-- Some node of one of the trees is erroneous or missing. -/
def anyError : List Tree → Bool
  | [] => false
  | t :: ts => hasError t || anyError ts

end

mutual

/-- Where the first erroneous or missing node of the tree starts. A part without such a node is
passed over as a whole. -/
def firstFault? : Tree → Option Nat
  | mk l _ m s _ ps => if decide (l = .node .error) || m then some s else firstFaultAmong? ps

/-- Where the first erroneous or missing node of the trees starts. -/
def firstFaultAmong? : List Tree → Option Nat
  | [] => none
  | t :: ts =>
    if hasError t then
      match firstFault? t with
      | some s => some s
      | none => firstFaultAmong? ts
    else firstFaultAmong? ts

end

mutual

/-- The nodes of the tree in pre-order. -/
def preorder : Tree → List Tree
  | mk l r m s e ps => mk l r m s e ps :: preorderAll ps

/-- The nodes of the trees, one tree after the other, each in pre-order. -/
def preorderAll : List Tree → List Tree
  | [] => []
  | t :: ts => preorder t ++ preorderAll ts

end

end Tree

end DocBlocks.Syntax
