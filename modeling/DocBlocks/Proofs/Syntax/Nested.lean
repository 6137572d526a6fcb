import DocBlocks.Syntax.Tree
import Mathlib.Tactic.Lemma

/-!
# Nested trees

The parts of a node of a syntax tree lie in the node, one behind the other. A tree is well nested if
this is so at each of its nodes.

## Main definitions

* `Tree.Nests`: the nodes whose parts lie one behind the other inside the node.
* `Tree.WellNested`: the trees all of whose nodes are such.

## Main results

* `Tree.preorder_eq`: the nodes of a tree are its root and those of its parts.
-/

namespace DocBlocks.Syntax.Tree

/-! ## Nodes in pre-order -/

lemma preorderAll_eq (ts : List Tree) : preorderAll ts = ts.flatMap preorder := by
  induction ts with
  | nil => rfl
  | cons t ts ih => rw [preorderAll, ih, List.flatMap_cons]

/-- In pre-order the root of a tree comes first, and then what comes in its parts. -/
lemma preorder_eq (t : Tree) : t.preorder = t :: t.parts.flatMap preorder := by
  obtain ⟨l, r, m, s, e, ps⟩ := t
  rw [preorder, preorderAll_eq]
  rfl

lemma anyError_eq (ts : List Tree) : anyError ts = ts.any hasError := by
  induction ts with
  | nil => rfl
  | cons t ts ih => rw [anyError, List.any_cons, ih]

/-- A tree has an error if its root is at fault or one of its parts has an error. -/
lemma hasError_eq (t : Tree) : t.hasError = (t.faulty || t.parts.any hasError) := by
  obtain ⟨l, r, m, s, e, ps⟩ := t
  rw [hasError, anyError_eq]
  rfl

/-! ## Nested nodes -/

/-- Whether the parts of a node lie one behind the other inside the node. -/
structure Nests (n : Tree) : Prop where
  forward : n.start ≤ n.stop
  inside : ∀ p ∈ n.parts, n.start ≤ p.start ∧ p.stop ≤ n.stop
  ordered : n.parts.Pairwise fun p q => p.stop ≤ q.start

/-- Whether the parts of each node of a tree lie one behind the other inside the node. -/
def WellNested (t : Tree) : Prop := ∀ n ∈ t.preorder, n.Nests

instance (n : Tree) : Decidable n.Nests :=
  decidable_of_iff (n.start ≤ n.stop ∧ (∀ p ∈ n.parts, n.start ≤ p.start ∧ p.stop ≤ n.stop) ∧
      n.parts.Pairwise fun p q => p.stop ≤ q.start)
    ⟨fun ⟨hforward, hinside, hordered⟩ => ⟨hforward, hinside, hordered⟩,
      fun h => ⟨h.forward, h.inside, h.ordered⟩⟩

instance (t : Tree) : Decidable t.WellNested := List.decidableBAll ..

lemma WellNested.nests {t : Tree} (h : t.WellNested) : t.Nests := h t (by rw [preorder_eq]; exact List.mem_cons_self)

lemma WellNested.parts {t : Tree} (h : t.WellNested) : ∀ p ∈ t.parts, p.WellNested := by
  intro p hp n hn
  apply h
  rw [preorder_eq]
  exact List.mem_cons_of_mem _ (List.mem_flatMap.mpr ⟨p, hp, hn⟩)

end DocBlocks.Syntax.Tree
