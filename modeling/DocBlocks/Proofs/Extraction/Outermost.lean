import DocBlocks.Proofs.Extraction.Accepted

/-!
# Outermost units

The search for units goes down a tree and stops at each unit it finds. What it finds can be said
without the search: of all named nodes of the tree, in the order of the source, it is those that
have the shape of a unit while no node above them has it. Where the parts of each node lie one
behind the other inside the node, the units do so in the source.

## Main definitions

* `Syntax.Tree.lineages`: the named nodes below the root of a tree, each with the nodes above it.
* `Extraction.IsUnit`: the shapes of units.
* `Extraction.Outermost`: the units that lie in no other unit.

## Main results

* `Extraction.foundIn_eq_outermost`: the search finds the outermost units.
* `Extraction.pairwise_foundIn`: what it finds lies one behind the other.
* `Extraction.unitsIn_eq_outermost`: the units of a tree.
-/

namespace DocBlocks

open Syntax

namespace Syntax.Tree

/-! ## Nodes and the nodes above them -/

mutual

/-- The named nodes below the root of a tree in pre-order. Each comes with the nodes above it, the
nearest first; the last of these are the root and what is above the root. What is below a bare token
does not count. -/
def lineagesBelow (above : List Tree) : Tree → List (List Tree)
  | mk l r m s e ps => lineagesAmong (mk l r m s e ps :: above) ps

/-- The named nodes of some trees in pre-order, one tree after the other, each with the nodes above
it. -/
def lineagesAmong (above : List Tree) : List Tree → List (List Tree)
  | [] => []
  | t :: ts => (if t.named then (t :: above) :: lineagesBelow above t else []) ++ lineagesAmong above ts

end

/-- The named nodes below the root of a tree in pre-order, each with the nodes above it up to the
root. -/
def lineages (t : Tree) : List (List Tree) := lineagesBelow [] t

lemma lineagesAmong_eq (above ts : List Tree) :
    lineagesAmong above ts = ts.flatMap fun t => if t.named then (t :: above) :: lineagesBelow above t else [] := by
  induction ts with
  | nil => rfl
  | cons t ts ih => rw [lineagesAmong, ih, List.flatMap_cons]

/-- The named nodes below a root are its named parts, each followed by those below it. -/
lemma lineagesBelow_eq (above : List Tree) (t : Tree) :
    lineagesBelow above t =
      t.parts.flatMap fun p => if p.named then (p :: t :: above) :: lineagesBelow (t :: above) p else [] := by
  obtain ⟨l, r, m, s, e, ps⟩ := t
  rw [lineagesBelow, lineagesAmong_eq]
  rfl

/-- **The named nodes below the root**, each once and in pre-order: they are all of them if a bare
token has no parts. -/
lemma map_head?_lineagesBelow (above : List Tree) {t : Tree} (ht : ∀ n ∈ t.preorder, n.named ∨ n.parts = []) :
    (lineagesBelow above t).map List.head? = (t.preorder.tail.filter named).map some := by
  induction t using Tree.induct generalizing above with
  | node t ih =>
    rw [preorder_eq] at ht
    rw [lineagesBelow_eq, preorder_eq, List.tail_cons, List.map_flatMap, List.filter_flatMap, List.map_flatMap]
    apply List.flatMap_congr
    intro p hp
    have hbelow : ∀ n ∈ p.preorder, n.named ∨ n.parts = [] := by
      intro n hn
      exact ht n (List.mem_cons_of_mem _ (List.mem_flatMap.mpr ⟨p, hp, hn⟩))
    by_cases hnamed : p.named
    · rw [if_pos hnamed, List.map_cons, ih p hp _ hbelow, preorder_eq p, List.filter_cons_of_pos hnamed]
      rfl
    · have hparts : p.parts = [] := (hbelow p (by rw [preorder_eq]; exact List.mem_cons_self)).resolve_left hnamed
      rw [if_neg hnamed, preorder_eq p, hparts, List.filter_cons_of_neg hnamed]
      rfl

/-- A node below a root has the root above it. -/
lemma exists_of_mem_lineagesBelow {above a : List Tree} {t : Tree} (h : a ∈ lineagesBelow above t) :
    ∃ n between, a = n :: (between ++ t :: above) := by
  induction t using Tree.induct generalizing above with
  | node t ih =>
    rw [lineagesBelow_eq] at h
    obtain ⟨p, hp, h⟩ := List.mem_flatMap.mp h
    split at h
    · rcases List.mem_cons.mp h with rfl | h
      · exact ⟨p, [], rfl⟩
      · obtain ⟨n, between, rfl⟩ := ih p hp h
        exact ⟨n, between ++ [p], by simp⟩
    · cases h

end Syntax.Tree

namespace Extraction

open Syntax.Tree

/-! ## Shapes of units -/

/-- **The shapes of units**: the declaration of a function or generator, a method in the body of a
class, and the declaration of a variable with a plain name that an arrow function initialises. -/
def IsUnit (parent n : Tree) : Prop :=
  n.hasKind .functionDeclaration ∨ n.hasKind .generatorFunctionDeclaration ∨
    (n.hasKind .methodDefinition ∧ parent.hasKind .classBody) ∨
    (n.hasKind .variableDeclarator ∧ (∃ name, n.part? .name = some name ∧ name.hasKind .identifier) ∧
      ∃ value, n.part? .value = some value ∧ value.hasKind .arrowFunction)

lemma hasKind_iff {n : Tree} {k : Kind} : n.hasKind k ↔ n.kind? = some k := by
  rw [hasKind, kind?, decide_eq_true_iff]
  cases n.label with
  | node k' => simp
  | token spelling => simp

/-- A node has a kind if it is named. -/
lemma named_of_hasKind {n : Tree} {k : Kind} (h : n.hasKind k) : n.named := by
  rw [named, hasKind_iff.mp h]
  rfl

lemma IsUnit.named {parent n : Tree} (h : IsUnit parent n) : n.named := by
  rcases h with h | h | ⟨h, -⟩ | ⟨h, -⟩ <;> exact named_of_hasKind h

/-- **The search takes a node for a unit** exactly if it has the shape of one. -/
lemma isSome_found?_iff {parent n : Tree} : (found? parent.kind? n).isSome ↔ IsUnit parent n := by
  simp only [found?, IsUnit, hasKind_iff]
  cases n.kind? with
  | none => simp
  | some k =>
    cases k
    case methodDefinition =>
      by_cases hparent : parent.kind? = some .classBody
      · simp [hparent]
      · simp [hparent]
    case variableDeclarator =>
      cases n.part? .name with
      | none => simp
      | some name =>
        cases n.part? .value with
        | none => simp
        | some value =>
          by_cases harrow : name.kind? = some .identifier ∧ value.kind? = some .arrowFunction
          · simp [harrow]
          · simp [harrow]
    all_goals simp

/-- Whether the first of some nodes, each of them a part of the next, has the shape of a unit. -/
def LeadsUnit : List Tree → Prop
  | n :: parent :: _ => IsUnit parent n
  | _ => False

/-- **The outermost units**: nodes with the shape of a unit, below nodes that do not have it. -/
def Outermost (a : List Tree) : Prop := LeadsUnit a ∧ ∀ b ∈ a.tail.tails, ¬ LeadsUnit b

instance (parent n : Tree) : Decidable (IsUnit parent n) := decidable_of_iff _ isSome_found?_iff

instance : DecidablePred LeadsUnit
  | [] => .isFalse id
  | [_] => .isFalse id
  | n :: parent :: _ => inferInstanceAs (Decidable (IsUnit parent n))

instance : DecidablePred Outermost := fun _ => inferInstanceAs (Decidable (_ ∧ _))

/-! ## The search -/

/-- What the search finds at the first of some nodes, each of them a part of the next. -/
def leadFound? : List Tree → Option Found
  | n :: parent :: _ => found? parent.kind? n
  | _ => none

/-- Below a unit there is no outermost one. -/
lemma filter_outermost_eq_nil {above : List Tree} {t : Tree} (h : ∃ b ∈ (t :: above).tails, LeadsUnit b) :
    (lineagesBelow above t).filter (Outermost ·) = [] := by
  rw [List.filter_eq_nil_iff]
  intro a ha
  obtain ⟨n, between, rfl⟩ := exists_of_mem_lineagesBelow ha
  obtain ⟨b, hb, hunit⟩ := h
  simp only [decide_eq_true_eq]
  intro hout
  apply hout.2 b _ hunit
  rw [List.tail_cons, List.mem_tails]
  rw [List.mem_tails] at hb
  exact hb.trans (List.suffix_append between (t :: above))

/-- **The search finds the outermost units** below a root, if none is above it: in the order of the
source, and each once.

**Proof sketch.** Induction on the tree. The search passes by a part that is a bare token. At a part
that is a unit it stops, and below it there is no outermost unit; at another part it goes on. -/
lemma foundIn_eq_outermost {above : List Tree} {t : Tree} (habove : ∀ b ∈ (t :: above).tails, ¬ LeadsUnit b) :
    ((lineagesBelow above t).filter (Outermost ·)).map leadFound? = (foundIn t).map some := by
  induction t using Tree.induct generalizing above with
  | node t ih =>
    rw [lineagesBelow_eq, foundIn_eq, List.filter_flatMap, List.map_flatMap, List.map_flatMap]
    apply List.flatMap_congr
    intro p hp
    by_cases hunit : IsUnit t p
    · have hout : Outermost (p :: t :: above) := ⟨hunit, habove⟩
      have hbelow : (lineagesBelow (t :: above) p).filter (Outermost ·) = [] := by
        apply filter_outermost_eq_nil
        refine ⟨p :: t :: above, ?_, hunit⟩
        rw [List.mem_tails]
      obtain ⟨x, hx⟩ := Option.isSome_iff_exists.mp (isSome_found?_iff.mpr hunit)
      rw [if_pos hunit.named, List.filter_cons_of_pos (by simpa using hout), hbelow, foundAt, if_pos hunit.named, hx]
      show [found? t.kind? p] = [some x]
      rw [hx]
    · have hnot : ¬ Outermost (p :: t :: above) := fun h => hunit h.1
      have hnone : found? t.kind? p = none := by
        rw [← Option.not_isSome_iff_eq_none]
        exact mt isSome_found?_iff.mp hunit
      by_cases hnamed : p.named
      · rw [if_pos hnamed, List.filter_cons_of_neg (by simpa using hnot), foundAt, if_pos hnamed, hnone]
        apply ih p hp
        intro b hb
        rw [List.mem_tails, List.suffix_cons_iff] at hb
        rcases hb with rfl | hb
        · exact hunit
        · apply habove
          rwa [List.mem_tails]
      · rw [if_neg hnamed, foundAt, if_neg hnamed]
        rfl

/-- The part in a role of a node lies in the node. -/
lemma inside_part? {t p : Tree} {r : Role} (ht : t.WellNested) (hp : t.part? r = some p) :
    t.start ≤ p.start ∧ p.start ≤ p.stop ∧ p.stop ≤ t.stop := by
  have hmem := List.mem_of_find?_eq_some hp
  obtain ⟨hstart, hstop⟩ := ht.nests.inside p hmem
  exact ⟨hstart, (ht.parts p hmem).nests.forward, hstop⟩

/-- A unit lies in the node that has its shape. -/
lemma inside_found? {parent : Option Kind} {t : Tree} {x : Found} (ht : t.WellNested) (hx : found? parent t = some x) :
    t.start ≤ x.node.start ∧ x.node.start ≤ x.node.stop ∧ x.node.stop ≤ t.stop := by
  rw [found?] at hx
  split at hx
  · obtain rfl := Option.some.inj hx
    exact ⟨le_rfl, ht.nests.forward, le_rfl⟩
  · obtain rfl := Option.some.inj hx
    exact ⟨le_rfl, ht.nests.forward, le_rfl⟩
  · rw [Option.ite_none_right_eq_some] at hx
    obtain ⟨-, hx⟩ := hx
    obtain rfl := Option.some.inj hx
    exact ⟨le_rfl, ht.nests.forward, le_rfl⟩
  · split at hx
    · rename_i hvalue
      rw [Option.ite_none_right_eq_some] at hx
      obtain ⟨-, hx⟩ := hx
      obtain rfl := Option.some.inj hx
      exact inside_part? ht hvalue
    · cases hx
  · cases hx

/-- What is found in a part lies in the part. -/
lemma inside_foundAt {parent : Option Kind} {p : Tree} {x : Found} (hp : p.WellNested)
    (hbelow : ∀ x ∈ foundIn p, p.start ≤ x.node.start ∧ x.node.start ≤ x.node.stop ∧ x.node.stop ≤ p.stop)
    (hx : x ∈ foundAt parent p) : p.start ≤ x.node.start ∧ x.node.start ≤ x.node.stop ∧ x.node.stop ≤ p.stop := by
  rw [foundAt] at hx
  split at hx
  · split at hx
    · rename_i y hy
      obtain rfl := List.mem_singleton.mp hx
      exact inside_found? hp hy
    · exact hbelow x hx
  · cases hx

/-- What is found in a tree lies in the tree. -/
lemma inside_foundIn {t : Tree} (ht : t.WellNested) :
    ∀ x ∈ foundIn t, t.start ≤ x.node.start ∧ x.node.start ≤ x.node.stop ∧ x.node.stop ≤ t.stop := by
  induction t using Tree.induct with
  | node t ih =>
    intro x hx
    rw [foundIn_eq] at hx
    obtain ⟨p, hp, hx⟩ := List.mem_flatMap.mp hx
    obtain ⟨hstart, hforward, hstop⟩ := inside_foundAt (ht.parts p hp) (ih p hp (ht.parts p hp)) hx
    obtain ⟨hfirst, hlast⟩ := ht.nests.inside p hp
    exact ⟨by omega, hforward, by omega⟩

/-- **What is found in a tree** lies one behind the other. -/
lemma pairwise_foundIn {t : Tree} (ht : t.WellNested) :
    (foundIn t).Pairwise fun x y => x.node.stop ≤ y.node.start := by
  induction t using Tree.induct with
  | node t ih =>
    rw [foundIn_eq, List.pairwise_flatMap]
    constructor
    · intro p hp
      rw [foundAt]
      split
      · split
        · exact List.pairwise_singleton _ _
        · exact ih p hp (ht.parts p hp)
      · exact List.Pairwise.nil
    · have hmem := ht.nests.ordered
      refine hmem.imp_of_mem fun {p q} hp hq hpq x hx y hy => ?_
      have hx := inside_foundAt (ht.parts p hp) (inside_foundIn (ht.parts p hp)) hx
      have hy := inside_foundAt (ht.parts q hq) (inside_foundIn (ht.parts q hq)) hy
      omega

/-! ## The units of a tree -/

/-- The unit that the first of some nodes is, each of them a part of the next. -/
def leadUnit? (source : Text) : List Tree → Option CodeUnit
  | n :: parent :: _ => unit? source parent.kind? n
  | _ => none

lemma leadUnit?_eq (source : Text) (a : List Tree) : leadUnit? source a = (leadFound? a).map (Found.unit source) := by
  match a with
  | [] => rfl
  | [_] => rfl
  | n :: parent :: _ => exact unit?_eq source parent.kind? n

/-- **The units of a tree** whose parts are nested are those of its outermost nodes with the shape
of a unit. Of all named nodes below the root, in pre-order and each once, these are the ones that
have the shape and lie below no other one that has it; each of them gives one unit, in their order.
The units lie in the tree one behind the other, so no byte is in two of them and none lies inside
another.

**Proof sketch.** The search finds the outermost nodes (`foundIn_eq_outermost`), and what it finds
lies one behind the other (`pairwise_foundIn`). -/
theorem unitsIn_eq_outermost (source : Text) {t : Tree} (ht : t.WellNested) :
    ((∀ n ∈ t.preorder, n.named ∨ n.parts = []) →
        t.lineages.map List.head? = (t.preorder.tail.filter named).map some) ∧
      (t.lineages.filter (Outermost ·)).map (leadUnit? source) = (unitsIn source t).map some ∧
      ((unitsIn source t).Pairwise fun u v => u.span.stop ≤ v.span.start) ∧
      ∀ u ∈ unitsIn source t, t.start ≤ u.span.start ∧ u.span.start ≤ u.span.stop ∧ u.span.stop ≤ t.stop := by
  have habove : ∀ b ∈ [t].tails, ¬ LeadsUnit b := by
    intro b hb
    rw [List.mem_tails, List.suffix_cons_iff, List.suffix_nil] at hb
    rcases hb with rfl | rfl <;> exact id
  rw [unitsIn_eq]
  refine ⟨map_head?_lineagesBelow [], ?_, ?_, ?_⟩
  · have hfound := congrArg (List.map (Option.map (Found.unit source))) (foundIn_eq_outermost habove)
    rw [List.map_map, List.map_map] at hfound
    rw [funext (leadUnit?_eq source), List.map_map]
    exact hfound
  · rw [List.pairwise_map]
    exact pairwise_foundIn ht
  · intro u hu
    obtain ⟨x, hx, rfl⟩ := List.mem_map.mp hu
    exact inside_foundIn ht x hx

/-- The search stops at the method and at the arrow function, and it goes on in the method of an
object. -/
theorem unitsIn_eq_outermost_nested :
    let source := "class A{m(){function i(){}}}const f=()=>{function j(){}},o={p(){function g(){}}}".toList
    let t := syntaxTree .javaScript source
    t.lineages.map List.head? = (t.preorder.tail.filter named).map some ∧
      (t.lineages.filter (Outermost ·)).map (leadUnit? source) = (unitsIn source t).map some ∧
      (unitsIn source t).map CodeUnit.name = ["m".toList, "f".toList, "g".toList] ∧
      (unitsIn source t).Pairwise fun u v => u.span.stop ≤ v.span.start := by
  intro source t
  have ht : t.WellNested := by decide +kernel
  obtain ⟨hnamed, houtermost, hordered, -⟩ := unitsIn_eq_outermost source ht
  exact ⟨hnamed (by decide +kernel), houtermost, by decide +kernel, hordered⟩

end Extraction

end DocBlocks
