import DocBlocks.Description.Block
import DocBlocks.Comment.Preceding
import DocBlocks.Proofs.Text.Occurrence

/-!
# Blocks that close once

The comment made from what is known about a unit shows pieces of its source: names, types and
defaults as they are written. As long as none of them holds the mark that closes a comment, the
block is one comment.

## Main definitions

* `CodeUnit.ShowsNoCloser`: the units whose block shows no closer.
* `CodeUnit.inside`: what stands between the marks of a block.

## Main results

* `CodeUnit.block_eq`: the block of such a unit is one documentation comment behind its indentation.
-/

namespace DocBlocks

open Text Comment

/-- Whether no line of the block of a unit, but the last one, holds a closer. -/
def CodeUnit.ShowsNoCloser (u : CodeUnit) : Prop := ∀ line ∈ u.blockLines.dropLast, ¬ closer <:+: line

instance (u : CodeUnit) : Decidable u.ShowsNoCloser := List.decidableBAll ..

namespace CodeUnit

/-- Texts joined by a mark: the first of them, and the others with the mark in front. -/
lemma intercalate_cons (sep l : Text) (ls : List Text) :
    sep.intercalate (l :: ls) = l ++ ls.flatMap (sep ++ ·) := by
  induction ls generalizing l with
  | nil => simp [List.intercalate]
  | cons m ls ih =>
    have := ih m
    simp only [List.intercalate, List.intersperse_cons_cons, List.flatten_cons, List.flatMap_cons] at this ⊢
    rw [this, List.append_assoc]

/-- The lines of a block between the first and the last one. -/
def middleLines (u : CodeUnit) : List Text :=
  [" * ".toList ++ u.opening] ++ (if u.isAsync then [" * @async".toList] else []) ++
    u.parameters.map Parameter.line ++ (u.returnType.map fun t => " * @returns \x7b".toList ++ t ++ ['\x7d']).toList

lemma blockLines_eq (u : CodeUnit) : u.blockLines = docOpener :: (u.middleLines ++ [" */".toList]) := by
  have hopen : "/**".toList = docOpener := rfl
  rw [blockLines, middleLines, hopen]
  simp only [List.append_assoc, List.cons_append, List.nil_append]

/-- What stands between the marks of the block of a unit. -/
def inside (u : CodeUnit) (indent : Text) : Text :=
  u.middleLines.flatMap (['\n'] ++ indent ++ ·) ++ '\n' :: (indent ++ [' '])

/-- The first line of a block is the mark of a documentation comment. -/
lemma head?_inside (u : CodeUnit) (indent : Text) : (u.inside indent).head? = some '\n' := by
  rw [inside, middleLines]
  simp only [List.cons_append, List.nil_append, List.flatMap_cons, List.append_assoc]
  rfl

/-- The block of a unit is its inside between the marks of a documentation comment, behind the
indentation. -/
lemma block_eq_inside (u : CodeUnit) (indent : Text) :
    u.block indent = indent ++ (docOpener ++ u.inside indent ++ closer) := by
  rw [block, blockLines_eq, List.map_cons, intercalate_cons, List.map_append, List.flatMap_append, List.flatMap_map]
  simp [inside, closer]

/-- Lines behind indentation, each with a line feed in front, hold no closer if none of them
does. -/
lemma not_closer_isInfix_lines {indent : Text} {lines : List Text} {rest : Text}
    (hindent : '*' ∉ indent) (hlines : ∀ line ∈ lines, ¬ closer <:+: line) (hrest : ¬ closer <:+: rest)
    (hhead : rest.head? ≠ some '/') :
    ¬ closer <:+: lines.flatMap (['\n'] ++ indent ++ ·) ++ rest ∧
      (lines.flatMap (['\n'] ++ indent ++ ·) ++ rest).head? ≠ some '/' := by
  induction lines with
  | nil => exact ⟨hrest, hhead⟩
  | cons line lines ih =>
    obtain ⟨ihn, ihh⟩ := ih fun l hl => hlines l (by simp [hl])
    have hind : ¬ closer <:+: '\n' :: indent := fun h => hindent (by simpa using h.subset (show '*' ∈ closer by decide))
    have hlast : ('\n' :: indent).getLast? ≠ some '*' :=
      fun h => hindent (by simpa using List.mem_of_getLast? h)
    have hshape : (line :: lines).flatMap (['\n'] ++ indent ++ ·) ++ rest =
        ('\n' :: indent) ++ (line ++ (lines.flatMap (['\n'] ++ indent ++ ·) ++ rest)) := by simp
    rw [hshape]
    refine ⟨?_, by simp⟩
    rw [closer, pair_isInfix_append, pair_isInfix_append]
    rintro (h | (h | h | ⟨-, h⟩) | ⟨h, -⟩)
    · exact hind h
    · exact hlines line (by simp) h
    · exact ihn h
    · exact ihh h
    · exact hlast h

/-- The inside of the block of a unit that shows no closer has none, also together with the stars of
the marks. -/
lemma not_closer_isInfix_inside {u : CodeUnit} {indent : Text} (hu : u.ShowsNoCloser) (hindent : '*' ∉ indent) :
    ¬ closer <:+: '*' :: (u.inside indent ++ ['*']) := by
  have hlines : ∀ line ∈ u.middleLines, ¬ closer <:+: line := by
    intro line hline
    apply hu
    rw [blockLines_eq, ← List.cons_append, List.dropLast_concat]
    exact List.mem_cons_of_mem _ hline
  have hlast : ¬ closer <:+: '\n' :: (indent ++ [' ', '*']) := by
    rw [closer, ← List.cons_append, pair_isInfix_append]
    rintro (h | h | ⟨-, h⟩)
    · exact hindent (by simpa using h.subset (show '*' ∈ ['*', '/'] by decide))
    · exact absurd h (by decide)
    · cases h
  obtain ⟨hn, hhead⟩ := not_closer_isInfix_lines hindent hlines hlast (by simp)
  have hshape : u.inside indent ++ ['*'] =
      u.middleLines.flatMap (['\n'] ++ indent ++ ·) ++ '\n' :: (indent ++ [' ', '*']) := by simp [inside]
  rw [hshape, closer, pair_isInfix_cons]
  rintro (⟨-, h⟩ | h)
  · exact hhead h
  · exact hn h

/-- **The block of a unit** that shows no closer is one documentation comment behind its
indentation. -/
lemma block_eq {u : CodeUnit} {indent : Text} (hu : u.ShowsNoCloser) (hindent : '*' ∉ indent) :
    ∃ inner, u.block indent = indent ++ (docOpener ++ inner ++ closer) ∧
      ¬ closer <:+: '*' :: (inner ++ ['*']) :=
  ⟨u.inside indent, u.block_eq_inside indent, not_closer_isInfix_inside hu hindent⟩

end CodeUnit

end DocBlocks
