import DocBlocks.Grammar.Draft

/-!
# Repairs

A refused source is repaired where it is refused, and then read on. Two kinds of repair compete: a
mark that is missing in front of the refused token is put in, or the end of the trail is left out,
together with tokens from the refused one on, until a token fits. Every repair has a cost. The
attempts read on side by side: one that is refused again gives way to any other, and one that has
read far enough to weigh its lead ousts a costlier one.

## Main definitions

* `Cost`: what repairs cost.
* `Attempt`: a draft that is being read on.
* `marked?`, `Gap.reading?`: the two kinds of attempts.
* `Race.run`: which attempt prevails.
* `repair`: the draft that is read to the end.
-/

namespace DocBlocks.Grammar

open Syntax

/-! ## Costs -/

namespace Cost

/-- Every repair. -/
def repair : Nat := 500

/-- A mark put in. -/
def mark : Nat := 110

/-- A tree left out. -/
def tree : Nat := 100

/-- A line left out. -/
def line : Nat := 30

/-- Text left out. -/
def text (t : Text) : Nat := t.bytes + line * t.lineBreaks

/-- The greatest weight of a lead that does not oust. -/
def maxLead : Nat := 1600

end Cost

/-! ## Attempts -/

/-- An attempt to read on. -/
structure Attempt where
  draft : Draft
  /-- The number of tokens behind the refused one when it began. -/
  began : Nat
  /-- The weight it had when it began. -/
  weight : Nat
  /-- Where it is refused, if it is. -/
  refusal : Option Frontier
  /-- The number of bytes put in. -/
  moved : Nat
  deriving Inhabited

namespace Attempt

/-- Starts an attempt with a draft. -/
def start (d : Dialect) (x : Draft) (began weight moved : Nat) : Attempt :=
  let refusal := match readProgram d x.text with
    | .ok _ => none
    | .error f => some f
  { draft := x, began, weight, refusal, moved }

/-- Whether the attempt is refused at the token or before. -/
def isRefusedAt (a : Attempt) (t : Token) : Bool :=
  match a.refusal with
  | some f => f.token ≤ t.start + a.moved
  | none => false

/-- The weight of a number of tokens read without a fault. -/
def weightOf (tokens : Nat) : Nat := 3 * tokens / 2

/-- Whether the lead over a cost outweighs it after `k` tokens. -/
def ousts (a : Attempt) (k cost : Nat) : Bool :=
  a.draft.cost < cost && Cost.maxLead < (cost - a.draft.cost) * (1 + a.weight + weightOf (k - a.began))

/-- The cheapest attempt, the latest of several. -/
def cheapest? : List Attempt → Option Attempt
  | [] => none
  | a :: as =>
    match cheapest? as with
    | some b => if b.draft.cost ≤ a.draft.cost then some b else some a
    | none => some a

end Attempt

/-! ## Marks that are missing -/

/-- The marks that may be missing, a name among them. -/
def missingMarks : List Char := ['x', '\x7d', ';', ')', ']', '>', '\'', '"', '`', '/']

/-- The blank at a place: a line break if a statement has ended there. -/
def gapAt (f : Frontier) : Char := if f.ended then '\n' else ' '

/-- Whether the trail has an opening mark. -/
def opens (x : Draft) (trail : List Piece) (mark : String) : Bool :=
  trail.any fun p => mark.toList.isSuffixOf (x.part p.start p.stop)

/-- Whether a trail ends with the pattern of a regular expression that is still to be closed. -/
def endsInPattern (trail : List Piece) : Bool :=
  trail.head?.any fun p => p.trees.any fun t => t.hasKind .regexPattern

/-- Whether a trail ends with a slash that opens a regular expression: a number sign may follow it,
which no slash between two operands allows. -/
def endsInSlash (d : Dialect) (x : Draft) (trail : List Piece) : Bool :=
  trail.head?.any fun p =>
    x.part p.start p.stop = ['/'] && readsPast d (x.part 0 p.stop ++ ['#', '/']) p.stop

/-- Whether the trail has what a mark closes. A name and a semicolon close nothing. -/
def closes (x : Draft) (trail : List Piece) : Char → Bool
  | '\x7d' => opens x trail "\x7b"
  | ')' => opens x trail "("
  | ']' => opens x trail "["
  | '>' => opens x trail "<"
  | '\'' => opens x trail "'"
  | '"' => opens x trail "\""
  | '`' => opens x trail "`"
  | '/' => endsInPattern trail
  | _ => true

/-- Whether a mark is what is missing in front of a token. At the end of a source, another closing
brace may be missing behind it. -/
def isMissing (d : Dialect) (x : Draft) (f : Frontier) (t : Token) (mark : Char) : Bool :=
  let before := x.part 0 t.behind ++ [gapAt f, mark]
  let lead := x.part t.behind t.start
  closes x f.trail mark &&
    if t.start = t.stop then fits d before lead [] || fits d before lead ['\x7d']
    else fits d before lead (x.part t.start t.stop)

/-- The attempt to put in a missing mark. -/
def marked? (d : Dialect) (x : Draft) (f : Frontier) (t : Token) : Option Attempt :=
  (missingMarks.find? (isMissing d x f t)).map fun mark =>
    let y := { x.insert t.behind (gapAt f) mark with cost := x.cost + Cost.repair + Cost.mark }
    let read := (x.tokens x.settled).takeWhile fun u => u.stop ≤ t.behind
    let comments := read.foldl (fun n u => n + u.comments) t.comments
    Attempt.start d y 0 (Attempt.weightOf read.length + comments) 2

/-! ## Text that is left out -/

/-- A part of the trail that may be left out: what stays stops at `stop`, the part starts at
`start`, and the blank in its place starts with `gap`. -/
structure Cut where
  stop : Nat
  start : Nat
  trees : Nat
  depth : Nat
  gap : Char := ' '
  /-- Whether what stays stops within a regular expression. -/
  inRegex : Bool := false
  deriving Repr, Inhabited

/-- The parts at the end of a trail, the shortest first. -/
def cutsOf (inRegex : List Piece → Bool) (trees depth : Nat) : List Piece → List Cut
  | [] => []
  | p :: ps =>
    let cut : Cut :=
      { stop := (ps.head?.map Piece.stop).getD 0
        start := p.start
        trees := trees + p.trees.length
        depth := depth + 1
        inRegex := inRegex ps }
    cut :: cutsOf inRegex cut.trees cut.depth ps

/-- The kinds of the last part of a node that nothing could enlarge. -/
def closingKinds : List Kind :=
  [.arguments, .statementBlock, .classBody, .propertyIdentifier, .privatePropertyIdentifier]

/-- Whether more could be read into a node: it ends with a part that is no token and could be
larger. -/
def isOpen (t : Tree) : Bool :=
  match (t.parts.filter fun p => !p.isComment).getLast? with
  | some p =>
    match p.kind? with
    | some k => !closingKinds.contains k
    | none => false
  | none => false

/-- The trails that differ in how much of the last tree has been read as one, the most divided one
first; at most `n` of them. -/
def divisions : Nat → List Piece → List (List Piece)
  | 0, trail => [trail]
  | n + 1, trail =>
    match trail with
    | ⟨[t], _⟩ :: ps =>
      if isOpen t then
        let parts := t.parts.filter fun p => !p.isComment
        divisions n ((parts.map fun p => ⟨[p], false⟩).reverse ++ ps) ++ [trail]
      else [trail]
    | _ => [trail]

/-- Cuts of several trails, the shallow ones first, and none twice. -/
def interleaved (n : Nat) (cuts : List (List Cut)) : List Cut :=
  ((List.range n).flatMap fun i => cuts.filterMap fun cs => cs[i]?).foldl (fun found c =>
    if found.any fun f => f.depth = c.depth ∧ f.stop = c.stop then found else found ++ [c]) []

/-- The greatest number of pieces left out. -/
def maxDepth : Nat := 16

/-- What is known when tokens are left out: the draft, where it is refused, and the first token left
out. -/
structure Gap where
  draft : Draft
  refusal : Frontier
  first : Token
  deriving Inhabited

namespace Gap

/-- The cost so far, when the first `k` tokens are left out and `t` comes next. -/
def cost (g : Gap) (k : Nat) (t : Token) : Nat :=
  g.draft.cost + Cost.repair + Cost.tree * k + if k = 0 then 0 else Cost.text (g.draft.part g.first.start t.behind)

/-- The cuts that may be made, with `k` tokens left out. -/
def cuts (d : Dialect) (g : Gap) (k : Nat) : List Cut :=
  let inRegex := fun trail => endsInPattern trail || endsInSlash d g.draft trail
  let cuts := interleaved maxDepth ((divisions maxDepth g.refusal.trail).map (cutsOf inRegex 0 0))
  if k = 0 then cuts
  else ⟨g.first.behind, g.first.start, 0, 0, gapAt g.refusal, inRegex g.refusal.trail⟩ :: cuts

/-- Whether `t` may follow a cut, with `k` tokens left out. Once tokens are left out, a slash right
behind one of them counts as the end of a regular expression. -/
def continues (d : Dialect) (g : Gap) (k : Nat) (t : Token) (cut : Cut) : Bool :=
  let before := g.draft.part 0 cut.stop ++ [cut.gap]
  !cut.inRegex && !(k ≠ 0 && g.draft.isJoinedSlash t) &&
    fits d before (g.draft.part t.behind t.start) (g.draft.part t.start t.stop)

/-- The draft without a cut and the first `k` tokens, up to `t`. -/
def leaveOut (g : Gap) (k : Nat) (t : Token) (cut : Cut) : Draft :=
  let cost := Cost.repair + Cost.tree * (cut.trees + k) + Cost.text (g.draft.part cut.start t.behind)
  { g.draft.leaveOut cut.stop t.behind cut.start cut.gap with cost := g.draft.cost + cost }

/-- The attempt to read on with `t` behind the first cut it fits, unless `tooDear` holds of the cost
before. -/
def reading? (d : Dialect) (g : Gap) (k : Nat) (t : Token) (tooDear : Nat → Bool) : List Cut → Option Attempt
  | [] => none
  | cut :: cuts =>
    let dist := Cost.tree * (cut.depth + if k = 0 then 0 else 1) + Cost.text (g.draft.part cut.stop t.behind)
    if tooDear (g.cost k t + dist) then none
    else if g.continues d k t cut then
      some (Attempt.start d (g.leaveOut k t cut) k 0 0)
    else g.reading? d k t tooDear cuts

/-- The draft that is left out as a whole. -/
def whole (g : Gap) (k : Nat) (t : Token) : Draft :=
  let start := firstToken g.draft.text
  let trees := (g.refusal.trail.flatMap Piece.trees).length + k
  let cost := Cost.repair + Cost.tree * trees + Cost.text (g.draft.part start t.behind)
  { g.draft.leaveOut 0 t.behind start ' ' with cost := g.draft.cost + cost }

end Gap

/-! ## The race -/

/-- How a race of attempts ends: with a draft that is read to the end, or one that is refused
again. -/
inductive Outcome where
  | read (x : Draft)
  | refused (x : Draft) (f : Frontier)
  deriving Inhabited

/-- The state of a race when `passed` tokens are behind the refused one: the attempts, and whether
tokens are still being left out. -/
structure Race where
  passed : Nat
  attempts : List Attempt
  skipping : Bool
  deriving Inhabited

namespace Race

/-- Lets attempts go that are refused at `t` or ousted. If all are refused, the cheapest one
prevails, unless leaving out more tokens is cheaper. -/
def pruned (g : Gap) (r : Race) (t : Token) : Outcome ⊕ Race :=
  let (refused, going) := r.attempts.partition fun a => a.isRefusedAt t
  let going := going.filter fun a => !going.any fun b => b.ousts r.passed a.draft.cost
  let cost := g.cost r.passed t
  let next : Race := { r with attempts := going }
  match going, Attempt.cheapest? refused with
  | [], some a =>
    if r.skipping ∧ cost < a.draft.cost + Cost.repair + Cost.tree then .inr next
    else
      match a.refusal with
      | some f => .inl (.refused a.draft f)
      | none => .inl (.read a.draft)
  | _, _ => .inr next

/-- Whether a lead over the cost outweighs it. -/
def oustsCost (r : Race) (cost : Nat) : Bool := r.attempts.any fun a => a.ousts r.passed cost

/-- Adds the attempt to read on with `t`, if there is one. -/
def joined (d : Dialect) (g : Gap) (r : Race) (t : Token) : Race :=
  if r.skipping then
    { r with
      attempts := r.attempts ++ (g.reading? d r.passed t r.oustsCost (g.cuts d r.passed)).toList }
  else r

/-- Passes `t`. No more tokens are left out once an attempt outweighs that, or is cheaper and has
read the token behind the refused one. -/
def pass (g : Gap) (r : Race) (t : Token) : Race :=
  let cost := g.cost r.passed t + Cost.tree + Cost.text (g.draft.part t.behind t.stop)
  let isBeaten := r.oustsCost cost || r.passed ≠ 0 && r.attempts.any fun a => a.draft.cost < cost
  { r with passed := r.passed + 1, skipping := r.skipping && !isBeaten }

/-- The draft that wins at the end of the source. -/
def winner (g : Gap) (r : Race) (t : Token) : Draft :=
  let whole := g.whole r.passed t
  match Attempt.cheapest? r.attempts with
  | some a => if r.skipping ∧ whole.cost < a.draft.cost then whole else a.draft
  | none => whole

/-- Runs a race over the tokens from the refused one on; the last of them is the end of the
source. -/
def run (d : Dialect) (g : Gap) (r : Race) : List Token → Outcome
  | [] => .read (r.winner g g.first)
  | t :: ts =>
    match r.pruned g t with
    | .inl o => o
    | .inr r =>
      let r := r.joined d g t
      if ts.isEmpty then .read (r.winner g t) else (r.pass g t).run d g ts

end Race

/-- Repairs a draft in at most `n` steps until it is read to the end. -/
def repair (d : Dialect) : Nat → Draft → Frontier → Draft
  | 0, x, _ => x.withFault false (firstToken x.text)
  | n + 1, x, f =>
    match x.tokens f.behind with
    | [] => x
    | t :: ts =>
      let g : Gap := ⟨x, f, t⟩
      match Race.run d g ⟨0, (marked? d x f t).toList, true⟩ (t :: ts) with
      | .read y => y
      | .refused y f => repair d n y f

/-- The number of repairs after which the whole source counts as the fault. -/
def maxRepairs : Nat := 64

end DocBlocks.Grammar
