import DocBlocks.Proofs.Extraction.Shown
import DocBlocks.Proofs.Syntax.Nested
import Mathlib.Logic.Basic
import Mathlib.Tactic.Common

/-!
# The first fault of a source

A source that is refused is reported with the line of the first fault in the tree of its own
dialect. The search passes over each part of the tree without a fault as a whole, and it finds what
a search through all nodes in pre-order would. Whatever the trees are that sources are read as, a
source of the untyped dialect is never reported by its other tree, the typed one that it may be
accepted by.

## Main definitions

* `Tree.Faultless`: the trees without a fault.
* `Tree.IsFirstFault`: the first node in pre-order that is a fault.
* `extractBy`: the units of a source, whatever the trees are that sources are read as.

## Main results

* `Tree.hasError_eq_false_iff`: a tree has no error exactly if it is faultless.
* `Tree.firstFault?_eq`: the search that passes over parts finds the first fault in pre-order.
* `extract_firstFault`: which sources are accepted, by which tree, and which line is reported of the
  others.
-/

namespace DocBlocks

open Syntax Syntax.Tree

namespace Syntax.Tree

/-! ## Faults in pre-order -/

/-- Whether no node of a tree is erroneous or missing. -/
def Faultless (t : Tree) : Prop := ∀ n ∈ t.preorder, n.faulty = false

/-- Whether a node is the first of a tree in pre-order that is erroneous or missing. -/
def IsFirstFault (t fault : Tree) : Prop :=
  ∃ front back, t.preorder = front ++ fault :: back ∧ fault.faulty ∧ ∀ n ∈ front, n.faulty = false

/-- **A tree has no error** if none of its nodes is a fault. -/
lemma hasError_eq_false_iff (t : Tree) : t.hasError = false ↔ t.Faultless := by
  induction t using Tree.induct with
  | node t ih =>
    rw [hasError_eq, Bool.or_eq_false_iff, Faultless, preorder_eq, List.forall_mem_cons, List.forall_mem_flatMap,
      List.any_eq_false]
    refine and_congr_right fun _ => forall₂_congr fun p hp => ?_
    rw [Bool.not_eq_true, ih p hp, Faultless]

lemma hasError_iff (t : Tree) : t.hasError ↔ ¬ t.Faultless := by
  rw [← hasError_eq_false_iff, Bool.not_eq_false]

/-- Some node of a tree with an error is the first fault. -/
lemma isFirstFault_iff {t fault : Tree} : t.IsFirstFault fault ↔ t.preorder.find? faulty = some fault := by
  rw [List.find?_eq_some_iff_append, IsFirstFault]
  constructor
  · rintro ⟨front, back, ht, hfault, hfront⟩
    exact ⟨hfault, front, back, ht, fun n hn => by rw [hfront n hn]; rfl⟩
  · rintro ⟨hfault, front, back, ht, hfront⟩
    exact ⟨front, back, ht, hfault, fun n hn => by simpa using hfront n hn⟩

/-- A tree with a first fault has a fault. -/
lemma IsFirstFault.not_faultless {t fault : Tree} (h : t.IsFirstFault fault) : ¬ t.Faultless := by
  obtain ⟨front, back, hnodes, hfault, -⟩ := h
  intro hall
  rw [hall fault (by rw [hnodes]; simp)] at hfault
  cases hfault

/-- The search through trees finds what a search through their nodes does if it does so in each of
them.

**Proof sketch.** Induction on the trees. One that is passed over has no fault, so that the search
through its nodes finds nothing either; in any other one the search has found something. -/
lemma firstFaultAmong?_eq {ts : List Tree} (h : ∀ t ∈ ts, t.firstFault? = (t.preorder.find? faulty).map start) :
    firstFaultAmong? ts = ((ts.flatMap preorder).find? faulty).map start := by
  induction ts with
  | nil => rfl
  | cons t ts ih =>
    obtain ⟨ht, hts⟩ := List.forall_mem_cons.mp h
    rw [firstFaultAmong?, List.flatMap_cons, List.find?_append, ht, ih hts]
    by_cases herror : t.hasError
    · rw [if_pos herror]
      cases t.preorder.find? faulty <;> rfl
    · have hnone : t.preorder.find? faulty = none := by
        rw [List.find?_eq_none]
        intro n hn
        rw [(hasError_eq_false_iff t).mp (by simpa using herror) n hn]
        exact Bool.false_ne_true
      rw [if_neg herror, hnone]
      rfl

/-- **The search for the first fault**, which passes over parts without one, finds the first fault
in pre-order. -/
lemma firstFault?_eq (t : Tree) : t.firstFault? = (t.preorder.find? faulty).map start := by
  induction t using Tree.induct with
  | node t ih =>
    have hroot : t.firstFault? = if t.faulty then some t.start else firstFaultAmong? t.parts := by
      obtain ⟨l, r, m, s, e, ps⟩ := t
      rfl
    rw [hroot, preorder_eq, List.find?_cons, firstFaultAmong?_eq ih]
    cases t.faulty <;> rfl

/-- **A tree with an error** has a first fault, and this is what the search finds. -/
lemma exists_isFirstFault {t : Tree} (h : t.hasError) : ∃ fault, t.IsFirstFault fault ∧ t.firstFault? = some fault.start := by
  cases hfind : t.preorder.find? faulty with
  | none =>
    rw [hasError_iff] at h
    refine absurd (fun n hn => ?_) h
    simpa using List.find?_eq_none.mp hfind n hn
  | some fault => exact ⟨fault, isFirstFault_iff.mpr hfind, by rw [firstFault?_eq, hfind]; rfl⟩

end Syntax.Tree

/-! ## Rows -/

open Text in
/-- The row of a place is the number of line feeds in front of it. -/
lemma rowAt_append (before behind : Text) : rowAt (before ++ behind) (bytes before) = lineBreaks before := by
  induction before with
  | nil =>
    cases behind with
    | nil => rfl
    | cons c behind => exact if_pos c.utf8Size_pos
  | cons c before ih =>
    have hbehind : ¬ c.utf8Size + bytes before < c.utf8Size := by omega
    rw [List.cons_append, rowAt, bytes_cons, if_neg hbehind, Nat.add_sub_cancel_left, ih, lineBreaks, lineBreaks,
      List.count_cons, Nat.add_comm]
    simp

/-! ## Extraction by any trees -/

section Parser

variable (parse : Dialect → Text → Tree) (d : Dialect) (source : Text)

/-- The tree the units are taken from, if sources are read by `parse`. -/
def treeBy : Tree :=
  let tree := parse d source
  if tree.hasError ∧ d = .javaScript then
    let typed := parse .tsx source
    if typed.hasError then tree else typed
  else tree

/-- The outermost code units of a source, if sources are read by `parse`. -/
def extractBy : Except SyntaxError (List CodeUnit) :=
  let tree := treeBy parse d source
  if tree.hasError then
    .error { line := ((tree.firstFault?.map (rowAt source)).getD 0) + 1, dialect := d }
  else .ok (Extraction.unitsIn source tree)

/-- The tree that counts is the one of the dialect, unless this has an error and the other one of
the untyped dialect has none. -/
lemma treeBy_cases :
    treeBy parse d source = parse d source ∧ ((parse d source).hasError → d = .javaScript → (parse .tsx source).hasError) ∨
      treeBy parse d source = parse .tsx source ∧ (parse d source).hasError ∧ d = .javaScript ∧
        (parse .tsx source).hasError = false := by
  simp only [treeBy]
  split
  · rename_i h
    split
    · rename_i htyped
      exact .inl ⟨rfl, fun _ _ => htyped⟩
    · rename_i htyped
      exact .inr ⟨rfl, h.1, h.2, by simpa using htyped⟩
  · rename_i h
    exact .inl ⟨rfl, fun herror hd => absurd ⟨herror, hd⟩ h⟩

variable {parse d source}

/-- **Which sources are accepted**, and the tree their units come from. -/
lemma extractBy_eq_ok_iff {units : List CodeUnit} :
    extractBy parse d source = .ok units ↔
      (parse d source).Faultless ∧ units = Extraction.unitsIn source (parse d source) ∨
        ¬ (parse d source).Faultless ∧ d = .javaScript ∧ (parse .tsx source).Faultless ∧
          units = Extraction.unitsIn source (parse .tsx source) := by
  have hok : extractBy parse d source = .ok units ↔
      (treeBy parse d source).hasError = false ∧ units = Extraction.unitsIn source (treeBy parse d source) := by
    rw [extractBy]
    cases (treeBy parse d source).hasError <;> simp [eq_comm]
  rw [hok, ← hasError_iff, ← hasError_eq_false_iff, ← hasError_eq_false_iff]
  rcases treeBy_cases parse d source with ⟨htree, hother⟩ | ⟨htree, herror, hd, htyped⟩
  · rw [htree]
    refine ⟨.inl, ?_⟩
    rintro (h | ⟨herror, hd, htyped, -⟩)
    · exact h
    · rw [hother herror hd] at htyped
      cases htyped
  · rw [htree, htyped, herror]
    simp [hd]

/-- **What is reported** of the others: the line of the first fault in the tree of their own
dialect. -/
lemma extractBy_eq_error_iff {e : SyntaxError} :
    extractBy parse d source = .error e ↔
      (d = .javaScript → ¬ (parse .tsx source).Faultless) ∧
        ∃ fault, (parse d source).IsFirstFault fault ∧ e = ⟨1 + rowAt source fault.start, d⟩ := by
  have herror : extractBy parse d source = .error e ↔
      ∃ fault, (treeBy parse d source).IsFirstFault fault ∧ e = ⟨1 + rowAt source fault.start, d⟩ := by
    rw [extractBy]
    split
    · rename_i h
      obtain ⟨fault, hfirst, hfound⟩ := exists_isFirstFault h
      have hunique : ∀ other, (treeBy parse d source).IsFirstFault other → other = fault := fun other hother =>
        Option.some.inj ((isFirstFault_iff.mp hother).symm.trans (isFirstFault_iff.mp hfirst))
      rw [hfound, Option.map_some, Option.getD_some, Nat.add_comm, Except.error.injEq]
      constructor
      · rintro rfl
        exact ⟨fault, hfirst, rfl⟩
      · rintro ⟨other, hother, rfl⟩
        rw [hunique other hother]
    · rename_i h
      refine ⟨nofun, fun ⟨fault, hfirst, _⟩ => absurd (hasError_iff _ |>.mpr hfirst.not_faultless) h⟩
  rw [herror, ← hasError_iff]
  rcases treeBy_cases parse d source with ⟨htree, hother⟩ | ⟨htree, -, hd, htyped⟩
  · rw [htree]
    refine ⟨fun ⟨fault, hfirst, he⟩ => ⟨fun hd => ?_, fault, hfirst, he⟩, And.right⟩
    exact hother ((hasError_iff _).mpr hfirst.not_faultless) hd
  · have hfaultless := (hasError_eq_false_iff _).mp htyped
    rw [htree, htyped]
    exact ⟨fun ⟨_, hfirst, _⟩ => absurd hfaultless hfirst.not_faultless, fun ⟨h, _⟩ => absurd (h hd) Bool.false_ne_true⟩

end Parser

/-- **The first fault** of a refused source is what is reported of it. Sources may be read as any
trees: a source is accepted exactly if the tree of its dialect has no fault, or if it is one of the
untyped dialect and its other tree has none; the units come from the tree of the dialect whenever
that has no fault. Of any other source the line is reported on which the first fault in pre-order
starts, of the tree of its own dialect, and never a line without a fault. The row of a place is the
number of line feeds in front of it.

**Proof sketch.** A part that the search passes over has no fault, so the search finds the first
fault in pre-order (`firstFault?_eq`). If both trees have a fault, the one of the dialect is kept
(`treeBy_cases`). -/
theorem extract_firstFault :
    extract = extractBy Grammar.parse ∧
      (∀ parse d source,
        (∀ units, extractBy parse d source = .ok units ↔
          (parse d source).Faultless ∧ units = Extraction.unitsIn source (parse d source) ∨
            ¬ (parse d source).Faultless ∧ d = .javaScript ∧ (parse .tsx source).Faultless ∧
              units = Extraction.unitsIn source (parse .tsx source)) ∧
        ∀ e, extractBy parse d source = .error e ↔
          (d = .javaScript → ¬ (parse .tsx source).Faultless) ∧
            ∃ fault, (parse d source).IsFirstFault fault ∧ e = ⟨1 + rowAt source fault.start, d⟩) ∧
      ∀ before behind : Text, rowAt (before ++ behind) before.bytes = before.lineBreaks :=
  ⟨rfl, fun _ _ _ => ⟨fun _ => extractBy_eq_ok_iff, fun _ => extractBy_eq_error_iff⟩, rowAt_append⟩

/-- A source that neither tree accepts, with a fault on its second line. -/
theorem extract_firstFault_second :
    let source := "let a = 1;\nlet b = ;\n".toList
    extract .javaScript source = .error ⟨2, .javaScript⟩ ∧
      ∃ fault, (Grammar.parse .javaScript source).IsFirstFault fault ∧ 2 = 1 + rowAt source fault.start := by
  intro source
  have herror : extract .javaScript source = .error ⟨2, .javaScript⟩ := by decide +kernel
  obtain ⟨hextract, hspec, -⟩ := extract_firstFault
  obtain ⟨-, fault, hfirst, he⟩ := ((hspec Grammar.parse .javaScript source).2 _).mp (hextract ▸ herror)
  exact ⟨herror, fault, hfirst, congrArg SyntaxError.line he⟩

end DocBlocks
