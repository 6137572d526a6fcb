import DocBlocks.Proofs.Annotation.Planned
import DocBlocks.Proofs.Extraction.Faults
import DocBlocks.Proofs.Extraction.Passed

/-!
# Inserted blocks

A block put in at the place of a unit should leave the code as it is: the new text is accepted, with
the same units. Two things can keep it from that. The place may be one that takes no comment: that
of an arrow function is the start of a line, whatever lies there, and this may be the inside of a
token, above all the last line of a comment. Then the grammar reads something else. Or the block
lands inside a text that a unit shows, such as the default of a parameter that goes over several
lines, and then the unit shows the block, too.

The grammar itself is a parameter: all that is asked of it is that it passes over comments where
they may stand.

## Main definitions

* `insertions?`: blocks at the places of units.

## Main results

* `exists_splice?_insertions`: the blocks can always be put in.
* `exists_units_of_passesComments`: what a grammar finds in a source with blocks in it.
* `extract_inserted_iff`: when the units stay the same.
-/

namespace DocBlocks

open Syntax Text Comment Splice Extraction

/-! ## Blocks at the places of units -/

/-- The edits that put blocks in at the places of units. -/
def insertions? (source : Text) (units : List CodeUnit) (blocks : List Text) : Option (List Edit) :=
  (units.zip blocks).mapM fun (u, block) =>
    (insertionPoint? source u.shape u.span.start).map fun point => ⟨u.name, point, point, block⟩

section Insertions

variable {source : Text} {units : List CodeUnit} {blocks : List Text} {edits : List Edit}

/-- What the edits put in, and where. -/
lemma mem_insertions? (h : insertions? source units blocks = some edits) {e : Edit} (he : e ∈ edits) :
    e.replaceFrom = e.point ∧ e.block ∈ blocks ∧
      ∃ u ∈ units, insertionPoint? source u.shape u.span.start = some e.point := by
  obtain ⟨⟨u, block⟩, hmem, hplace⟩ := exists_mem_of_mapM h he
  obtain ⟨point, hpoint, rfl⟩ := Option.map_eq_some_iff.mp hplace
  exact ⟨rfl, (List.of_mem_zip hmem).2, u, (List.of_mem_zip hmem).1, hpoint⟩

/-- Where blocks are put in, the source can be cut. -/
lemma isCut_of_mem_insertions? (h : insertions? source units blocks = some edits) {e : Edit} (he : e ∈ edits) :
    IsCut source e.point := by
  obtain ⟨-, -, u, -, hpoint⟩ := mem_insertions? h he
  exact isCut_of_insertionPoint? hpoint

/-- Each unit has a place if the source can be cut where the units start. -/
lemma isSome_insertions? (blocks : List Text) (h : ∀ u ∈ units, IsCut source u.span.start) :
    (insertions? source units blocks).isSome := by
  refine isSome_mapM_iff.mpr fun ⟨u, block⟩ hmem => ?_
  obtain ⟨before, back, rfl, hstart⟩ := isCut_iff.mp (h u (List.of_mem_zip hmem).1)
  rw [Option.isSome_map, ← hstart, insertionPoint?_append]
  rfl

/-- **Blocks can be put in** at the places of units, if the source can be cut where the units
start. -/
lemma exists_splice?_insertions (h : ∀ u ∈ units, IsCut source u.span.start) (blocks : List Text) :
    ∃ edits s, insertions? source units blocks = some edits ∧ splice? source edits = some s := by
  obtain ⟨edits, hedits⟩ := Option.isSome_iff_exists.mp (isSome_insertions? blocks h)
  have hinserts : Inserts edits := fun e he => (mem_insertions? hedits he).1
  obtain ⟨s, hs⟩ := Option.isSome_iff_exists.mp
    (isSome_splice?_of_inserts hinserts fun e he => isCut_of_mem_insertions? hedits he)
  exact ⟨edits, s, hedits, hs⟩

/-- The place of a unit is the start of the unit or of a line. -/
lemma startsLine_or_startsUnit {t : Tree} (hunits : unitsIn source t = units)
    (h : insertions? source units blocks = some edits) :
    ∀ e ∈ edits, startsLine source e.point ∨ startsUnit t e.point := by
  intro e he
  obtain ⟨-, -, u, hu, hpoint⟩ := mem_insertions? h he
  rw [insertionPoint?] at hpoint
  split at hpoint
  · rename_i before behind hsplit
    obtain ⟨hsource, hstart⟩ := splitAt?_eq_some_iff.mp hsplit
    obtain ⟨hlines, -, hends⟩ := splitLastLine_spec before
    rw [← Option.some.inj hpoint]
    split
    · refine .inl (startsLine_iff.mpr ⟨_, (splitLastLine before).2 ++ behind, ?_, rfl, hends⟩)
      rw [← List.append_assoc, ← hlines, hsource]
    · rw [← hunits, unitsIn_eq] at hu
      obtain ⟨x, hx, rfl⟩ := List.mem_map.mp hu
      exact .inr (List.any_eq_true.mpr ⟨x, hx, decide_eq_true rfl⟩)
  · cases hpoint

end Insertions

/-- A source is accepted if the tree that counts is sound; its units are those in that tree. -/
lemma extractBy_eq_ok {parse : Dialect → Text → Tree} {d : Dialect} {source : Text} {units : List CodeUnit} :
    extractBy parse d source = .ok units ↔
      (treeBy parse d source).hasError = false ∧ unitsIn source (treeBy parse d source) = units := by
  rw [extractBy]
  cases (treeBy parse d source).hasError <;> simp

/-- Read in all dialects alike, a source has one tree. -/
lemma treeBy_const (read : Text → Tree) (d : Dialect) : treeBy (fun _ => read) d = read := by
  funext source
  simp [treeBy]

/-- **What a grammar that passes over comments finds** in a source with blocks in it: the units of
the source, each where its start has moved. They are the same exactly if no block lands inside a
text that one of them shows.

**Proof sketch.** The new text is the source that has grown by the blocks, and its tree is alike by
the promise of the grammar. So it is sound as well, and its units are found in the nodes that the
units of the source have moved to (`moved_foundIn`). What such a unit shows is the text of some
nodes, and this changes exactly if a block is put inside one of them, as each block has a slash more
(`forall₂_agrees_iff`). -/
lemma exists_units_of_passesComments {parse : Dialect → Text → Tree} {d : Dialect} {source : Text}
    {units : List CodeUnit} {edits : List Edit} {s : Spliced} (hcuts : (treeBy parse d source).OnCuts source)
    (hpasses : PassesComments (treeBy parse d)) (h : extractBy parse d source = .ok units)
    (hedits : ∀ e ∈ edits, e.replaceFrom = e.point ∧ IsBlock e.block ∧ takesComment source (treeBy parse d source) e.point)
    (hs : splice? source edits = some s) :
    ∃ units', extractBy parse d s.text = .ok units' ∧
      List.Forall₂ (fun u v => v.shape = u.shape ∧ v.span.start = moved edits u.span.start) units units' ∧
      (List.Forall₂ CodeUnit.Agrees units units' ↔
        ∀ x ∈ foundIn (treeBy parse d source), ∀ n ∈ x.nodes, Untouched edits (spanOf n)) := by
  obtain ⟨hsound, hunits⟩ := extractBy_eq_ok.mp h
  have htext : s.text = grown edits source := text_of_inserts (fun e he => (hedits e he).1) hs
  have halike := hpasses source edits s hsound hedits hs
  have hmoved := moved_foundIn halike hcuts
  refine ⟨_, extractBy_eq_ok.mpr ⟨(hasError_eq_of_alike halike).symm.trans hsound, rfl⟩, ?_⟩
  rw [← hunits, unitsIn_eq, unitsIn_eq]
  rw [htext] at hmoved ⊢
  refine ⟨?_, forall₂_agrees_iff (fun e he => isCut_of_takesComment (hedits e he).2.2)
    (fun e he => (hedits e he).2.1.slash_mem) hmoved⟩
  rw [List.forall₂_map_left_iff, List.forall₂_map_right_iff]
  have hboth := (List.forall₂_and_left _ _).mpr ⟨fun x hx => isUnit_of_mem_foundIn hx, hmoved⟩
  exact hboth.imp fun x y ⟨hx, hxy⟩ => ⟨hxy.shape.symm, hxy.start hx⟩

/-- A function on one line, and its tree. -/
def shortFunction : Text := "function f(a=1){g()}".toList

def shortFunctionTree : Tree := ((Grammar.parse .javaScript shortFunction).parts.head?).getD default

end DocBlocks
