import DocBlocks.Proofs.Splice.OnePass
import DocBlocks.Proofs.Splice.Parts

/-!
# Edits in another order

The order in which edits are listed matters only among those at one place, whose blocks stack up.
Sorting forgets the rest of it: two lists are sorted to the same one exactly if they hold the same
edits, and at each place in the same order. All that a splice does, it does to the sorted edits.

## Main definitions

* `Edit.Rearranges`: lists that differ only in how edits at different places are ordered.

## Main results

* `rearranges_iff`: such lists are those that are sorted to the same list.
* `splice?_rearranged`: what edits make does not depend on their order.
-/

namespace DocBlocks

/-- Whether two lists hold the same edits, and at each place in the same order. -/
structure Edit.Rearranges (ds es : List Edit) : Prop where
  perm : ds.Perm es
  order : ∀ p, ds.filter (·.point = p) = es.filter (·.point = p)

open Edit Splice

variable {ds es : List Edit}

/-- Sorting changes nothing but the order. -/
lemma sortEdits_perm (edits : List Edit) : (sortEdits edits).Perm edits := by
  rw [sortEdits_eq_mergeSort]
  exact List.mergeSort_perm edits _

/-- **Sorting forgets the order** of edits at different places, and nothing else. -/
lemma rearranges_iff : Rearranges ds es ↔ sortEdits ds = sortEdits es := by
  constructor
  · intro h
    refine eq_of_filter_point (pairwise_sortEdits ds) (pairwise_sortEdits es) fun p => ?_
    rw [filter_sortEdits, filter_sortEdits, h.order]
  · intro h
    refine ⟨(sortEdits_perm ds).symm.trans (h ▸ sortEdits_perm es), fun p => ?_⟩
    rw [← filter_sortEdits ds, h, filter_sortEdits]

instance (ds es : List Edit) : Decidable (Rearranges ds es) := decidable_of_iff _ rearranges_iff.symm

/-- **The order of edits** does not matter, as long as edits at one place stay in theirs: whatever
the source is and however the edits overlap, both lists make the same text with the same report, one
line for each edit, or neither makes any.

**Proof sketch.** A splice works on the sorted edits alone, and both lists are sorted to the same
one (`rearranges_iff`). -/
theorem splice?_rearranged (source : Text) (h : Rearranges ds es) :
    splice? source ds = splice? source es ∧
      ∀ s, splice? source ds = some s → s.report.length = ds.length ∧ s.report.length = es.length := by
  constructor
  · rw [splice?, splice?, rearranges_iff.mp h]
  · intro s hs
    have hlength := length_report_splice? hs
    exact ⟨hlength, hlength.trans h.perm.length_eq⟩

/-- Three edits that overlap, two of them at one place. -/
theorem splice?_rearranged_three :
    let f : Edit := ⟨"f".toList, 4, 0, "F".toList⟩
    let g : Edit := ⟨"g".toList, 1, 0, "G".toList⟩
    let h : Edit := ⟨"h".toList, 4, 2, "H".toList⟩
    Rearranges [f, h, g] [f, g, h] ∧ splice? "aXbYc".toList [f, h, g] = splice? "aXbYc".toList [f, g, h] ∧
      splice? "aXbYc".toList [f, g, h] = some ⟨"G\nF\nH\nc".toList, ["Replace comment for g at line 1".toList,
        "Replace comment for f at line 1".toList, "Add comment for h at line 1".toList]⟩ := by
  intro f g h
  have hsame : Rearranges [f, h, g] [f, g, h] := by decide
  exact ⟨hsame, (splice?_rearranged "aXbYc".toList hsame).1, by decide⟩

end DocBlocks
