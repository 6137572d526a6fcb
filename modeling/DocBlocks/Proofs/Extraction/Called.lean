import DocBlocks.Proofs.Extraction.Alike
import DocBlocks.Proofs.Extraction.Outermost
import Mathlib.Data.List.Flatten
import Mathlib.Logic.Relation

/-!
# Called names

The names that a unit calls are collected by going down its body, through the named nodes, and a
name that is already there is not taken again. This comes to the names of all calls in pre-order, of
which the first occurrences stay. Only the list as a whole is cut, so a name that is kept stays at
its place whatever is called behind it.

## Main definitions

* `Syntax.Tree.NamedPart`: the step from a node to a named part of it.
* `Syntax.Tree.reached`: the nodes of a tree to which such steps lead, in pre-order.
* `Extraction.bodyCalls`: the names of all calls in the body of a node.

## Main results

* `Syntax.Tree.reached_eq`, `Syntax.Tree.mem_reached_iff`: which nodes are reached, and in which
  order.
* `Extraction.foldl_addName`: names that are added one by one.
* `Extraction.calledIn_eq_foldl`: the names called in a tree are added in pre-order.
* `Extraction.unitOf_called`: the called names of a unit.
-/

namespace DocBlocks

open Syntax

/-! ## Nodes below named nodes -/

namespace Syntax.Tree

/-- The step from a node to one of its parts that is a named node. -/
def NamedPart (t p : Tree) : Prop := p ∈ t.parts ∧ p.named

/-- The nodes of a tree to which such steps lead, in pre-order: the root, whatever it is, and the
named nodes below it that lie below no bare token. -/
def reached (t : Tree) : List Tree := t :: t.lineages.filterMap List.head?

/-- What stands above a tree does not count for the nodes in it. -/
lemma filterMap_head?_lineagesBelow (above : List Tree) (t : Tree) :
    (lineagesBelow above t).filterMap List.head? = t.parts.flatMap fun p => if p.named then p.reached else [] := by
  induction t using Tree.induct generalizing above with
  | node t ih =>
    rw [lineagesBelow_eq, List.filterMap_flatMap]
    apply List.flatMap_congr
    intro p hp
    split
    · rw [List.filterMap_cons_some List.head?_cons, ih p hp, reached, lineages, ih p hp]
    · rfl

/-- First comes the root of a tree, and then what is reached in its named parts, from one to the
next. -/
lemma reached_eq (t : Tree) : t.reached = t :: t.parts.flatMap fun p => if p.named then p.reached else [] := by
  rw [reached, lineages, filterMap_head?_lineagesBelow]

/-- **The nodes that are reached** are those to which named parts lead from the root. -/
lemma mem_reached_iff {t n : Tree} : n ∈ t.reached ↔ Relation.ReflTransGen NamedPart t n := by
  induction t using Tree.induct with
  | node t ih =>
    rw [reached_eq, List.mem_cons, List.mem_flatMap, Relation.ReflTransGen.cases_head_iff, eq_comm]
    refine or_congr_right (exists_congr fun p => ?_)
    rw [NamedPart, and_assoc]
    refine and_congr_right fun hp => ?_
    split
    · rename_i hnamed
      rw [ih p hp, and_iff_right hnamed]
    · rename_i hnamed
      simp [hnamed]

/-- They stand in their order among all nodes of the tree in pre-order. -/
lemma reached_sublist_preorder (t : Tree) : t.reached.Sublist t.preorder := by
  induction t using Tree.induct with
  | node t ih =>
    rw [reached_eq, preorder_eq]
    apply List.Sublist.cons_cons
    apply List.Sublist.flatMap_right
    intro p hp
    split
    · exact ih p hp
    · exact List.nil_sublist _

end Syntax.Tree

namespace Extraction

/-! ## Names added one by one -/

/-- Adding a name to first occurrences is keeping the first occurrences with this name behind
them. -/
lemma addName_eraseDups (names : List Text) (name : Text) :
    addName names.eraseDups name = (names ++ [name]).eraseDups := by
  rw [List.eraseDups_append, addName]
  by_cases h : name ∈ names
  · simp [List.removeAll, h]
  · simp [List.removeAll, h, List.eraseDups_cons]

/-- **Names that are added one by one** to first occurrences: the first occurrences among all of
them. -/
lemma foldl_addName (found names : List Text) : names.foldl addName found.eraseDups = (found ++ names).eraseDups := by
  induction names generalizing found with
  | nil => rw [List.foldl_nil, List.append_nil]
  | cons name names ih => rw [List.foldl_cons, addName_eraseDups, ih, List.append_assoc, List.singleton_append]

lemma nodup_addName {names : List Text} (h : names.Nodup) (name : Text) : (addName names name).Nodup := by
  rw [addName]
  split
  · exact h
  · rename_i hname
    rw [List.contains_iff_mem] at hname
    refine List.nodup_append.mpr ⟨h, List.pairwise_singleton _ name, fun a ha b hb => ?_⟩
    obtain rfl := List.mem_singleton.mp hb
    rintro rfl
    exact hname ha

/-- First occurrences are without duplicates, as adding a name makes none. -/
lemma nodup_eraseDups (names : List Text) : names.eraseDups.Nodup := by
  have hrun : ∀ found : List Text, found.Nodup → (names.foldl addName found).Nodup := by
    induction names with
    | nil => exact fun found hfound => hfound
    | cons name names ih => exact fun found hfound => ih _ (nodup_addName hfound name)
  rw [← List.nil_append names, ← foldl_addName [] names]
  exact hrun _ List.nodup_nil

/-! ## The calls in a body -/

variable {source : Text}

/-- **The names called in a tree** are those of the nodes that are reached in it, added in
pre-order.

**Proof sketch.** Induction on the tree, for any names that are already there: a node adds its own
name and hands what there is to its parts, from one named part to the next. -/
lemma calledIn_eq_foldl (found : List Text) (t : Tree) :
    calledIn source found t = (t.reached.filterMap (calledBy? source)).foldl addName found := by
  induction t using Tree.induct generalizing found with
  | node t ih =>
    have hparts : ∀ found, calledAmong source found t.parts =
        ((t.parts.flatMap fun p => if p.named then p.reached else []).filterMap (calledBy? source)).foldl addName found := by
      intro found
      rw [calledAmong_eq, List.filterMap_flatMap, List.foldl_flatMap]
      apply List.foldl_ext
      intro found p hp
      rw [calledAt]
      split
      · exact ih p hp found
      · rfl
    obtain ⟨l, r, m, s, e, ps⟩ := t
    rw [calledIn, Tree.reached_eq, List.filterMap_cons]
    cases calledBy? source (.mk l r m s e ps) with
    | none => exact hparts found
    | some name => exact hparts (addName found name)

/-- The names of all calls in the body of a node, if it has one, in pre-order and each as often as
it is called. -/
def bodyCalls (source : Text) (t : Tree) : List Text :=
  ((t.part? .body).toList.flatMap Tree.reached).filterMap (calledBy? source)

lemma unitOf_called_eq (source name : Text) (shape : CodeUnit.Shape) (t : Tree) :
    (unitOf source name shape t).called = (bodyCalls source t).eraseDups.take CodeUnit.maxCalled := by
  rw [unitOf, bodyCalls]
  cases t.part? .body with
  | none => rfl
  | some body =>
    rw [Option.toList_some, List.flatMap_singleton, ← List.nil_append (List.filterMap _ _), ← foldl_addName,
      List.eraseDups_nil, ← calledIn_eq_foldl]

/-- The names of the calls in a body are those of the call expressions to which named parts lead
from it, as far as what is called has a name. -/
lemma mem_bodyCalls_iff {t : Tree} {name : Text} :
    name ∈ bodyCalls source t ↔ ∃ body n callee, t.part? .body = some body ∧ Relation.ReflTransGen Tree.NamedPart body n ∧
      n.hasKind .callExpression ∧ n.part? .callee = some callee ∧ calleeName? source callee = some name := by
  simp only [bodyCalls, List.mem_filterMap, List.mem_flatMap, Option.mem_toList, Tree.mem_reached_iff, calledBy?,
    Option.ite_none_right_eq_some, Option.bind_eq_some_iff]
  constructor
  · rintro ⟨n, ⟨body, hbody, hn⟩, hcall, callee, hcallee, hname⟩
    exact ⟨body, n, callee, hbody, hn, hcall, hcallee, hname⟩
  · rintro ⟨body, n, callee, hbody, hn, hcall, hcallee, hname⟩
    exact ⟨n, ⟨body, hbody, hn⟩, hcall, callee, hcallee, hname⟩

/-- They come in pre-order. -/
lemma bodyCalls_sublist (source : Text) (t : Tree) :
    (bodyCalls source t).Sublist (((t.part? .body).toList.flatMap Tree.preorder).filterMap (calledBy? source)) :=
  (List.Sublist.flatMap_right _ fun body _ => body.reached_sublist_preorder).filterMap _

/-- **The called names of a unit** are the first eight of the names that are called in its body,
each where it is called first. So there are no duplicates among them and at most eight of them, and
what is kept of the first calls stays in front, whatever is called behind them. What counts are all
call expressions to which named parts lead from the body, the body itself included, in pre-order.

**Proof sketch.** The search adds the names in pre-order to those it has found
(`calledIn_eq_foldl`), which keeps the first occurrences (`foldl_addName`). Further names come
behind these, so the cut at eight leaves what is in front. -/
theorem unitOf_called (source unitName : Text) (shape : CodeUnit.Shape) (t : Tree) :
    let called := (unitOf source unitName shape t).called
    called = (bodyCalls source t).eraseDups.take 8 ∧ called.Nodup ∧ called.length ≤ 8 ∧
      (∀ k, ((bodyCalls source t).take k).eraseDups.take 8 <+: called) ∧
      (∀ name, name ∈ bodyCalls source t ↔ ∃ body n callee, t.part? .body = some body ∧
        Relation.ReflTransGen Tree.NamedPart body n ∧ n.hasKind .callExpression ∧ n.part? .callee = some callee ∧
        calleeName? source callee = some name) ∧
      (bodyCalls source t).Sublist (((t.part? .body).toList.flatMap Tree.preorder).filterMap (calledBy? source)) := by
  intro called
  have hcalled : called = (bodyCalls source t).eraseDups.take 8 := unitOf_called_eq source unitName shape t
  refine ⟨hcalled, ?_, ?_, fun k => ?_, fun name => mem_bodyCalls_iff, bodyCalls_sublist source t⟩
  · rw [hcalled]
    exact (nodup_eraseDups _).sublist (List.take_sublist 8 _)
  · rw [hcalled]
    exact List.length_take_le 8 _
  · have hfirst : ((bodyCalls source t).take k).eraseDups <+: (bodyCalls source t).eraseDups := by
      conv_rhs => rw [← List.take_append_drop k (bodyCalls source t), List.eraseDups_append]
      exact List.prefix_append _ _
    rw [hcalled]
    exact hfirst.take 8

-- what is called may hold calls itself, like the arguments; the ninth name is left out
example : (extract .javaScript "function busy() { a(b(c)()).d(e()); b(); this.f(g); h(); i(); j(); k(); l(); }".toList).map
    (List.map CodeUnit.called) = .ok [["obj.d", "a", "b", "e", "this.f", "h", "i", "j"].map String.toList] := by
  decide +kernel

end Extraction

end DocBlocks
