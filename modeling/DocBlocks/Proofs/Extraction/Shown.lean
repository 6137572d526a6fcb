import DocBlocks.Extraction
import Mathlib.Tactic.Lemma

/-!
# Where the texts of a unit are read

A unit is found as a node of the tree, and what is known about it are texts of some nodes below.
Which nodes these are can be told from the tree alone; reading them from the source comes after.

## Main definitions

* `Extraction.Found`: a unit as it is found in a tree.
* `Extraction.foundIn`: the units of a tree, before anything is read.
* `Extraction.Shown`: a parameter before anything is read.

## Main results

* `Extraction.unitsIn_eq`: the units of a source are those of its tree, read from the source.
* `Extraction.parametersOf_eq`: so are the parameters of a unit.
-/

namespace DocBlocks

/-- Induction over trees: what holds of a node if it holds of its parts holds of all nodes. -/
lemma Syntax.Tree.induct {P : Tree → Prop} (node : ∀ t : Tree, (∀ p ∈ t.parts, P p) → P t) : ∀ t, P t
  | .mk _ _ _ _ _ ps => node _ fun p (_ : p ∈ ps) => induct node p

namespace Extraction

open Syntax

/-! ## Units -/

/-- A unit as it is found in a tree: its shape, the node of its name if it has one, and its own
node. -/
structure Found where
  shape : CodeUnit.Shape
  name : Option Tree
  node : Tree

/-- The unit that a part of a node of kind `parent` is, if it is one. -/
def found? (parent : Option Kind) (t : Tree) : Option Found :=
  match t.kind? with
  | some .functionDeclaration | some .generatorFunctionDeclaration => some ⟨.function, t.part? .name, t⟩
  | some .methodDefinition =>
    if parent = some .classBody then
      some ⟨.method, (t.part? .name).filter (Tree.hasKind · .propertyIdentifier), t⟩
    else none
  | some .variableDeclarator =>
    match t.part? .name, t.part? .value with
    | some name, some value =>
      if name.hasKind .identifier ∧ value.hasKind .arrowFunction then some ⟨.arrow, some name, value⟩ else none
    | _, _ => none
  | _ => none

mutual

/-- The outermost units below the root of a tree, in source order. -/
def foundIn : Tree → List Found
  | .mk l r m s e ps => foundAmong (Tree.mk l r m s e []).kind? ps

/-- The outermost units among the parts of a node of kind `parent`. -/
def foundAmong (parent : Option Kind) : List Tree → List Found
  | [] => []
  | t :: ts =>
    (if t.named then
      match found? parent t with
      | some x => [x]
      | none => foundIn t
    else []) ++ foundAmong parent ts

end

/-- What is found in a part of a node of kind `parent`. -/
def foundAt (parent : Option Kind) (t : Tree) : List Found :=
  if t.named then
    match found? parent t with
    | some x => [x]
    | none => foundIn t
  else []

lemma foundAmong_eq (parent : Option Kind) (ts : List Tree) : foundAmong parent ts = ts.flatMap (foundAt parent) := by
  induction ts with
  | nil => rw [foundAmong, List.flatMap_nil]
  | cons t ts ih =>
    rw [foundAmong, List.flatMap_cons, ih]
    rfl

/-- The units of a tree are those found in its parts. -/
lemma foundIn_eq (t : Tree) : foundIn t = t.parts.flatMap (foundAt t.kind?) := by
  obtain ⟨l, r, m, s, e, ps⟩ := t
  rw [foundIn, foundAmong_eq]
  rfl

/-- The name of a unit. -/
def Found.nameText (source : Text) (x : Found) : Text := (x.name.map (textOf source)).getD CodeUnit.anonymous

/-- A unit, read from its source. -/
def Found.unit (source : Text) (x : Found) : CodeUnit := unitOf source (x.nameText source) x.shape x.node

section Units

variable (source : Text)

lemma unit?_eq (parent : Option Kind) (t : Tree) : unit? source parent t = (found? parent t).map (Found.unit source) := by
  rw [unit?, found?]
  cases t.kind? with
  | none => rfl
  | some k =>
    cases k
    case methodDefinition =>
      by_cases hparent : parent = some .classBody
      · simp only [if_pos hparent]
        rfl
      · simp only [if_neg hparent]
        rfl
    case variableDeclarator =>
      cases t.part? .name with
      | none => rfl
      | some name =>
        cases t.part? .value with
        | none => rfl
        | some value =>
          by_cases harrow : name.hasKind .identifier ∧ value.hasKind .arrowFunction
          · simp only [if_pos harrow]
            rfl
          · simp only [if_neg harrow]
            rfl
    all_goals rfl

mutual

/-- **The units of a source** are those found in its tree, read from the source. -/
lemma unitsIn_eq : ∀ t : Tree, unitsIn source t = (foundIn t).map (Found.unit source)
  | .mk l r m s e ps => by
    rw [unitsIn, foundIn]
    exact unitsAmong_eq _ ps

lemma unitsAmong_eq (parent : Option Kind) : ∀ ts : List Tree,
    unitsAmong source parent ts = (foundAmong parent ts).map (Found.unit source)
  | [] => by
    rw [unitsAmong, foundAmong]
    rfl
  | t :: ts => by
    rw [unitsAmong, foundAmong, List.map_append, ← unitsAmong_eq parent ts, unit?_eq]
    refine congrArg (· ++ _) ?_
    split
    · cases found? parent t with
      | some x => rfl
      | none => exact unitsIn_eq t
    · rfl

end

end Units

/-! ## Parameters -/

/-- A parameter as it is found in a tree: what is written in front of its name, and the nodes of its
name, its type and its default. -/
structure Shown where
  lead : Text := []
  name : Option Tree
  type : Option Tree := none
  default : Option Tree := none

/-- A parameter, read from its source. -/
def Shown.parameter (source : Text) (x : Shown) : Parameter where
  name := x.lead ++ (x.name.map (textOf source)).getD []
  type := x.type.map (typeText source)
  default := x.default.map (textOf source)

/-- The target of a rest parameter. -/
def shownRest (t : Tree) : Shown :=
  match t.namedParts.head? with
  | some p => if p.hasKind .identifier then ⟨"...".toList, some p, none, none⟩ else ⟨"...args".toList, none, none, none⟩
  | none => ⟨"...args".toList, none, none, none⟩

mutual

/-- The parameter that a tree declares. -/
def shownOf : Tree → Shown
  | .mk l r m s e ps =>
    let t := Tree.mk l r m s e ps
    match t.kind? with
    | some .objectPattern => ⟨"\x7b...\x7d".toList, none, none, none⟩
    | some .arrayPattern => ⟨"[...]".toList, none, none, none⟩
    | some .restPattern => shownRest t
    | some .assignmentPattern =>
      { (shownAmong .left ps).getD { name := some t } with default := t.part? .right }
    | some .requiredParameter | some .optionalParameter =>
      let inner := (shownAmong .pattern ps).getD { name := some t }
      { inner with type := t.part? .type, default := (t.part? .value).or inner.default }
    | _ => { name := some t }

/-- The parameter that the first tree in a role declares. -/
def shownAmong (role : Role) : List Tree → Option Shown
  | [] => none
  | t :: ts => if t.role = some role then some (shownOf t) else shownAmong role ts

end

/-- The parameters of a function. -/
def shownIn (t : Tree) : List Shown :=
  match t.part? .parameters with
  | some params => (params.namedParts.filter fun p => !p.hasKind .comment).map shownOf
  | none =>
    match t.part? .parameter with
    | some single => [shownOf single]
    | none => []

section Parameters

variable (source : Text)

lemma restName_eq (t : Tree) : ({ name := restName source t } : Parameter) = (shownRest t).parameter source := by
  rw [restName, shownRest]
  cases t.namedParts.head? with
  | none => rfl
  | some p =>
    simp only
    split
    · rfl
    · rfl

mutual

/-- What a tree declares is what it shows, read from the source. -/
lemma parameterOf_eq : ∀ t : Tree, parameterOf source t = (shownOf t).parameter source
  | .mk l r m s e ps => by
    have htyped : ∀ x : Option Shown,
        { (x.map (Shown.parameter source)).getD { name := textOf source (.mk l r m s e ps) } with
          type := ((Tree.mk l r m s e ps).part? .type).map (typeText source)
          default := (((Tree.mk l r m s e ps).part? .value).map (textOf source)).or
            ((x.map (Shown.parameter source)).getD { name := textOf source (.mk l r m s e ps) }).default } =
        Shown.parameter source { x.getD { name := some (.mk l r m s e ps) } with
          type := (Tree.mk l r m s e ps).part? .type
          default := ((Tree.mk l r m s e ps).part? .value).or (x.getD { name := some (.mk l r m s e ps) }).default } := by
      intro x
      cases x <;> cases (Tree.mk l r m s e ps).part? .value <;> rfl
    rw [parameterOf, shownOf]
    simp only [parameterIn_eq]
    cases (Tree.mk l r m s e ps).kind? with
    | none => rfl
    | some k =>
      cases k
      case restPattern => exact restName_eq source _
      case assignmentPattern => cases shownAmong .left ps <;> rfl
      case requiredParameter => exact htyped _
      case optionalParameter => exact htyped _
      all_goals rfl

lemma parameterIn_eq (role : Role) : ∀ ts : List Tree,
    parameterIn source role ts = (shownAmong role ts).map (Shown.parameter source)
  | [] => by
    rw [parameterIn, shownAmong]
    rfl
  | t :: ts => by
    rw [parameterIn, shownAmong, parameterIn_eq role ts, parameterOf_eq t]
    split
    · rfl
    · rfl

end

/-- **The parameters of a function** are those shown in its node, read from the source. -/
lemma parametersOf_eq (t : Tree) : parametersOf source t = (shownIn t).map (Shown.parameter source) := by
  rw [parametersOf, shownIn]
  cases t.part? .parameters with
  | some params => simp [parameterOf_eq]
  | none =>
    cases t.part? .parameter with
    | some single => simp [parameterOf_eq]
    | none => rfl

end Parameters

end Extraction

end DocBlocks
