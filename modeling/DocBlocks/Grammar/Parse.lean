import DocBlocks.Grammar.Statement

/-!
# Parsing

Ties the productions together and reads whole sources.

## Main definitions

* `production`: the rule for each goal, given rules for all goals.
* `grammar`: the rules, for a bounded depth of nesting.
* `readProgram`: the trees of a source, or where the grammar refuses it.
-/

namespace DocBlocks.Grammar

open Syntax

/-- The rule for a goal, where `g` answers the goals it asks for. -/
def production (d : Dialect) (g : Rules) : Rules
  | .statement => statement d g
  | .block operand => block d (statements g) operand
  | .expression place => expression d g place
  | .expressions place => expressions g place
  | .arguments => arguments g
  | .propertyName => propertyName g
  | .object => object g
  | .template => template g
  | .parameters => parameters d g
  | .signature breaks => signature d g breaks
  | .method inClass => method d g inClass
  | .decorator => decorator d g
  | .classBody => classBody d g
  | .markup => markup d g
  | .type breaks level => typeExpression d g breaks level
  | .typeAscription breaks => typeAscription g breaks
  | .typeArguments => typeArguments g
  | .typeParameters => typeParameters g
  | .objectType kind => objectType d g kind

/-- The rules for productions nested at most `depth` deep. -/
def grammar (d : Dialect) : Nat → Rules
  | 0 => fun _ => refuse
  | depth + 1 => fun goal => production d (grammar d depth) goal

/-- A depth that no source of the given length exceeds. -/
def depthFor (length : Nat) : Nat := 8 * length + 64

mutual

/-- The trail up to the first object literal that holds a shorthand property with a default, if
there is one: the literal itself and, before it, the trees that stand in front of it. -/
def strayDefault? (before : List Piece) : Tree → Option (List Piece)
  | .mk label r m start stop ps =>
    if label = .node .object ∧ ps.any (fun p => p.hasKind .objectAssignmentPattern) then
      some (⟨[.mk label r m start stop ps], false⟩ :: before)
    else strayDefaultAmong? before ps

/-- The same for the trees of a list. -/
def strayDefaultAmong? (before : List Piece) : List Tree → Option (List Piece)
  | [] => none
  | t :: ts =>
    match strayDefault? before t with
    | some trail => some trail
    | none => strayDefaultAmong? (⟨[t], false⟩ :: before) ts

end

/-- The refusal of the token behind a trail. -/
def refusalBehind (source : Text) (trail : List Piece) : Frontier :=
  let behind := (trail.head?.map Piece.stop).getD 0
  let rest := ((source.splitAt? behind).map Prod.snd).getD []
  ⟨(skipTrivia { rest := rest, offset := behind }).2.offset, behind, trail, false⟩

/-- The trees of a whole source, or where reading stopped. -/
def readProgram (d : Dialect) (source : Text) : Except Frontier (List Tree) :=
  match program (grammar d (depthFor source.length)) { rest := source, offset := 0 } with
  | .accepted forest _ =>
    match strayDefaultAmong? [] forest with
    | some trail => .error (refusalBehind source trail)
    | none => .ok forest
  | .refused seen => .error seen

end DocBlocks.Grammar
