import DocBlocks.Proofs.Extraction.Shown
import DocBlocks.Proofs.Grammar.Programs

/-!
# Accepted sources

The tree of a source that is accepted fits the source, so that each unit starts and stops where the
source can be cut.

## Main results

* `fits_syntaxTree`: the tree the units are taken from.
* `exists_fits_of_extract`: the nodes that the units stand for.
* `exists_slice?_of_extract`: the texts of the units.
* `isCut_of_extract`: where the units of an accepted source start.
-/

namespace DocBlocks

open Syntax Syntax.Tree Text

variable {d : Dialect} {source : Text}

/-- A source is accepted if its tree is sound; its units are those in the tree. -/
lemma extract_eq_ok_iff {units : List CodeUnit} :
    extract d source = .ok units ↔
      (syntaxTree d source).hasError = false ∧ Extraction.unitsIn source (syntaxTree d source) = units := by
  rw [extract]
  cases (syntaxTree d source).hasError <;> simp

/-- **The tree of an accepted source** fits the source, in whichever dialect it is read. -/
lemma fits_syntaxTree (h : (syntaxTree d source).hasError = false) : (syntaxTree d source).Fits source := by
  simp only [syntaxTree] at h ⊢
  split at h
  · rename_i hfirst
    rw [if_pos hfirst]
    split at h
    · rename_i hsecond
      rw [if_pos hsecond]
      exact Grammar.fits_parse h
    · rename_i hsecond
      rw [if_neg hsecond]
      exact Grammar.fits_parse h
  · rename_i hfirst
    rw [if_neg hfirst]
    exact Grammar.fits_parse h

namespace Extraction

/-- The part in a role of a node on cuts is on cuts. -/
lemma onCuts_part? {t p : Tree} {r : Role} (ht : t.OnCuts source) (hp : t.part? r = some p) : p.OnCuts source :=
  ht.parts p (List.mem_of_find?_eq_some hp)

section Inherited

variable {P : Tree → Prop} (hP : ∀ t, P t → ∀ p ∈ t.parts, P p)

include hP in
/-- A unit is a node of the tree it is found in, or a part of one. -/
lemma inherited_found? {parent : Option Kind} {t : Tree} {x : Found} (ht : P t) (hx : found? parent t = some x) :
    P x.node := by
  rw [found?] at hx
  split at hx
  · obtain rfl := Option.some.inj hx
    exact ht
  · obtain rfl := Option.some.inj hx
    exact ht
  · split at hx
    · obtain rfl := Option.some.inj hx
      exact ht
    · cases hx
  · split at hx
    · rename_i hvalue
      split at hx
      · obtain rfl := Option.some.inj hx
        exact hP t ht _ (List.mem_of_find?_eq_some hvalue)
      · cases hx
    · cases hx
  · cases hx

include hP in
/-- **What the parts of a node inherit**, the units of a tree do. -/
lemma inherited_foundIn (t : Tree) : P t → ∀ x ∈ foundIn t, P x.node := by
  induction t using Tree.induct with
  | node t ih =>
    intro ht x hx
    rw [foundIn_eq] at hx
    obtain ⟨p, hp, hx⟩ := List.mem_flatMap.mp hx
    rw [foundAt] at hx
    split at hx
    · split at hx
      · rename_i y hy
        obtain rfl := List.mem_singleton.mp hx
        exact inherited_found? hP (hP t ht p hp) hy
      · exact ih p hp (hP t ht p hp) x hx
    · cases hx

end Inherited

/-- The units of a tree on cuts start where the source can be cut. -/
lemma isCut_of_unitsIn {t : Tree} (ht : t.OnCuts source) : ∀ u ∈ unitsIn source t, IsCut source u.span.start := by
  intro u hu
  rw [unitsIn_eq] at hu
  obtain ⟨x, hx, rfl⟩ := List.mem_map.mp hu
  exact (inherited_foundIn (fun _ => OnCuts.parts) t ht x hx).ends.1

end Extraction

/-- **A unit of an accepted source** covers a node that fits the source. -/
lemma exists_fits_of_extract {units : List CodeUnit} (h : extract d source = .ok units) :
    ∀ u ∈ units, ∃ n : Tree, n.Fits source ∧ u.span = ⟨n.start, n.stop⟩ := by
  obtain ⟨hsound, rfl⟩ := extract_eq_ok_iff.mp h
  intro u hu
  rw [Extraction.unitsIn_eq] at hu
  obtain ⟨x, hx, rfl⟩ := List.mem_map.mp hu
  exact ⟨x.node, Extraction.inherited_foundIn (fun _ => Fits.parts) _ (fits_syntaxTree hsound) x hx, rfl⟩

/-- It has its text in the source. -/
lemma exists_slice?_of_extract {units : List CodeUnit} (h : extract d source = .ok units) :
    ∀ u ∈ units, ∃ code, source.slice? u.span.start u.span.stop = some code := by
  intro u hu
  obtain ⟨n, hn, hspan⟩ := exists_fits_of_extract h u hu
  obtain ⟨before, rest, hsource, hstart⟩ := isCut_iff.mp hn.stands.start
  obtain ⟨upTo, behind, hsource', hstop⟩ := isCut_iff.mp hn.stands.stop
  have hforward := hn.forward
  obtain ⟨code, rfl, rfl⟩ := exists_of_bytes_le (hsource.symm.trans hsource') (by omega)
  rw [bytes_append] at hstop
  exact ⟨code, slice?_eq_some_iff.mpr ⟨before, behind, hsource, by rw [hspan, hstart], by rw [hspan, hstop]⟩⟩

/-- It starts where the source can be cut. -/
lemma isCut_of_extract {units : List CodeUnit} (h : extract d source = .ok units) :
    ∀ u ∈ units, IsCut source u.span.start := by
  obtain ⟨hsound, rfl⟩ := extract_eq_ok_iff.mp h
  exact Extraction.isCut_of_unitsIn (fits_syntaxTree hsound).onCuts

end DocBlocks
