import DocBlocks.Proofs.Comment.Stack
import DocBlocks.Proofs.Splice.OnePass

/-!
# Blocks that are replaced

Blocks that were put in at the start of a line stand there one above the other, each with its own
indentation. A search from the place behind them finds as many of them as it is asked for, from the
lowest up, whatever marks their texts hold. So all of them can be replaced at once, and the text is
the one that the new blocks would have made in the first place.

## Main definitions

* `pile`: blocks, each with a line feed behind it.
* `Comment.Ready`: the texts behind which blocks are found again.
* `InsertsAt`, `Restacks`: edits that put blocks in at one place, and edits that replace what is
  above it.
* `placeBehind`: the place behind blocks that were put in.

## Main results

* `Comment.aboveRun_pile`: a search finds the lowest blocks of a pile.
* `splice?_of_restacks`: what edits make that replace what is above a place.
* `splice?_restack`: blocks that were put in are found and replaced.
-/

namespace DocBlocks

open Text

/-- Blocks one above the other, each with a line feed behind it. -/
def pile (blocks : List Text) : Text := blocks.flatMap (· ++ ['\n'])

lemma pile_append (as bs : List Text) : pile (as ++ bs) = pile as ++ pile bs := List.flatMap_append

lemma pile_concat (as : List Text) (b : Text) : pile (as ++ [b]) = pile as ++ b ++ ['\n'] := by
  simp [pile]

lemma bytes_pile (blocks : List Text) : bytes (pile blocks) = (blocks.map fun b => bytes b + 1).sum := by
  induction blocks with
  | nil => rfl
  | cons b bs ih =>
    have hfeed : bytes ['\n'] = 1 := rfl
    rw [pile, List.flatMap_cons, bytes_append, bytes_append, hfeed, ← pile, ih, List.map_cons, List.sum_cons]

namespace Comment

/-! ## Finding -/

/-- Whether blocks behind a text are found with just this text above them: a line starts there, and
no comment is open for the search, which looks for an opener behind the last closer. -/
structure Ready (front : Text) : Prop where
  line : EndsLine front
  closed : ¬ opener <:+: (splitBehindLast closer front).2

/-- Where a text is ready for blocks, it is settled, whatever their indentation is. -/
lemma Ready.settled {front : Text} (h : Ready front) (indent : Text) : Settled indent front := by
  refine ⟨h.closed, ?_, .inl h.line⟩
  rcases h.line with rfl | ⟨t, rfl⟩ <;> simp

/-- **A block** behind a text that is ready is found, with this text above it. -/
lemma above?_docBlock {front block : Text} (hfront : Ready front) (hblock : IsDocBlock block) :
    above? (front ++ block ++ ['\n']) = some front := by
  obtain ⟨indent, inner, rfl, hindent, hinner⟩ := hblock
  exact (above?_put_iff hindent hinner).mpr (hfront.settled indent)

/-- Behind a pile of blocks the text is ready for further ones: the last block ends with a
closer. -/
lemma Ready.append_pile {front : Text} {blocks : List Text} (hfront : Ready front)
    (hblocks : ∀ b ∈ blocks, IsDocBlock b) : Ready (front ++ pile blocks) := by
  rcases List.eq_nil_or_concat' blocks with rfl | ⟨bs, b, rfl⟩
  · rwa [pile, List.flatMap_nil, List.append_nil]
  · obtain ⟨indent, inner, rfl, -, -⟩ := hblocks b (by simp)
    have hshape : front ++ pile (bs ++ [indent ++ (docOpener ++ inner ++ closer)]) =
        (front ++ pile bs ++ indent ++ docOpener ++ inner) ++ closer ++ ['\n'] := by
      rw [pile_concat]
      simp only [List.append_assoc]
    have hsettled := settled_of_closer [] (front ++ pile bs ++ indent ++ docOpener ++ inner)
    rw [hshape]
    exact ⟨.inr (List.suffix_append _ _), hsettled.closed⟩

/-- **A pile of blocks is found** by a search for as many comments.

**Proof sketch.** Induction on the blocks from the lowest up. Each of them has a ready text above
it, which is made of the blocks further up (`Ready.append_pile`), so it is found with just this text
above (`above?_docBlock`). -/
lemma aboveRun_pile {front : Text} {blocks : List Text} (hfront : Ready front) (hblocks : ∀ b ∈ blocks, IsDocBlock b) :
    aboveRun blocks.length (front ++ pile blocks) = front := by
  induction blocks using List.reverseRecOn with
  | nil => exact List.append_nil front
  | append_singleton bs b ih =>
    have hbs : ∀ x ∈ bs, IsDocBlock x := fun x hx => hblocks x (by simp [hx])
    have hfound := above?_docBlock (hfront.append_pile hbs) (hblocks b (by simp))
    rw [pile_concat, ← List.append_assoc, ← List.append_assoc, List.length_append, List.length_singleton, aboveRun,
      hfound]
    exact ih hbs

end Comment

open Comment

/-- **The lowest blocks of a pile** are found from the place behind it. -/
lemma precedingRun?_pile {front : Text} (back : Text) {as bs : List Text} (hfront : Ready front)
    (hblocks : ∀ b ∈ as ++ bs, IsDocBlock b) (hne : bs ≠ []) :
    precedingRun? (front ++ pile (as ++ bs) ++ back) (bytes (front ++ pile (as ++ bs))) bs.length =
      some ⟨bytes (front ++ pile as), bytes (front ++ pile (as ++ bs))⟩ := by
  obtain ⟨cs, c, rfl⟩ := (List.eq_nil_or_concat' bs).resolve_left hne
  have hcs : ∀ b ∈ cs, IsDocBlock b := fun b hb => hblocks b (by simp [hb])
  have hready : Ready (front ++ pile as) := hfront.append_pile fun b hb => hblocks b (by simp [hb])
  have hshape : front ++ pile (as ++ (cs ++ [c])) = front ++ pile as ++ pile cs ++ c ++ ['\n'] := by
    rw [pile_append, pile_concat]
    simp only [List.append_assoc]
  have hfound : above? (front ++ pile (as ++ (cs ++ [c]))) = some (front ++ pile as ++ pile cs) := by
    rw [hshape]
    exact above?_docBlock (hready.append_pile hcs) (hblocks c (by simp))
  rw [precedingRun?, splitAt?_append]
  simp only
  rw [hfound, Option.map_some, List.length_append, List.length_singleton, Nat.add_sub_cancel, aboveRun_pile hready hcs]

/-- As many of the lowest blocks of a pile are found as are asked for. -/
lemma precedingRun?_pile_take {front : Text} (back : Text) {blocks : List Text} {n : Nat} (hfront : Ready front)
    (hblocks : ∀ b ∈ blocks, IsDocBlock b) (hpos : 0 < n) (hn : n ≤ blocks.length) :
    precedingRun? (front ++ pile blocks ++ back) (bytes (front ++ pile blocks)) n =
      some ⟨bytes (front ++ pile (blocks.take (blocks.length - n))), bytes (front ++ pile blocks)⟩ := by
  obtain ⟨as, bs, rfl, rfl⟩ : ∃ as bs, blocks = as ++ bs ∧ n = bs.length := by
    refine ⟨blocks.take (blocks.length - n), blocks.drop (blocks.length - n), (List.take_append_drop _ _).symm, ?_⟩
    rw [List.length_drop]
    omega
  rw [List.length_append, Nat.add_sub_cancel, List.take_left]
  exact precedingRun?_pile back hfront hblocks (List.ne_nil_of_length_pos hpos)

/-! ## Replacing -/

/-- Whether edits put their blocks in at one place and replace nothing. -/
def InsertsAt (place : Nat) (edits : List Edit) : Prop := ∀ e ∈ edits, e.point = place ∧ e.replaceFrom = place

/-- Whether edits put their blocks in at one place, and the first of them replaces the text from
`top` down to it. -/
def Restacks (top place : Nat) : List Edit → Prop
  | [] => False
  | e :: es => (e.point = place ∧ e.replaceFrom = top) ∧ InsertsAt place es

instance (place : Nat) (edits : List Edit) : Decidable (InsertsAt place edits) := List.decidableBAll ..

instance (top place : Nat) : (edits : List Edit) → Decidable (Restacks top place edits)
  | [] => inferInstanceAs (Decidable False)
  | _ :: _ => inferInstanceAs (Decidable (_ ∧ _))

/-- The place behind the blocks that edits put in at a place. -/
def placeBehind (place : Nat) (edits : List Edit) : Nat := place + (edits.map fun e => bytes e.block + 1).sum

/-- Blocks that are put in behind a front reach as far as their pile does. -/
lemma placeBehind_eq (front : Text) (edits : List Edit) :
    placeBehind (bytes front) edits = bytes (front ++ pile (edits.map Edit.block)) := by
  rw [placeBehind, bytes_append, bytes_pile, List.map_map]
  rfl

/-- Edits that insert at a place replace the empty text there. -/
lemma InsertsAt.restacks {place : Nat} {edits : List Edit} (h : InsertsAt place edits) (hne : edits ≠ []) :
    Restacks place place edits := by
  obtain ⟨e, es, rfl⟩ := List.exists_cons_of_ne_nil hne
  exact ⟨h e (by simp), fun d hd => h d (by simp [hd])⟩

lemma Restacks.point {top place : Nat} {edits : List Edit} (h : Restacks top place edits) :
    ∀ e ∈ edits, e.point = place := by
  cases edits with
  | nil => cases h
  | cons e es =>
    intro d hd
    rcases List.mem_cons.mp hd with rfl | hd
    · exact h.1.1
    · exact (h.2 d hd).1

/-- Edits at one place are sorted. -/
lemma sortEdits_of_point {place : Nat} {edits : List Edit} (h : ∀ e ∈ edits, e.point = place) :
    sortEdits edits = edits := by
  have hsorted : edits.Pairwise fun d e => d.point ≤ e.point :=
    List.pairwise_of_forall_mem_list fun d hd e he => by rw [h d hd, h e he]
  exact eq_of_filter_point (pairwise_sortEdits edits) hsorted (filter_sortEdits edits)

namespace Splice

/-- One pass from the place on where blocks are put in makes the pile of the blocks. -/
lemma onePass?_of_insertsAt {front : Text} (back : Text) {edits : List Edit} (h : InsertsAt (bytes front) edits) :
    onePass? (front ++ back) (bytes front) (clamped (bytes front) edits) =
      some (pile (edits.map Edit.block) ++ back) := by
  induction edits with
  | nil =>
    rw [clamped, onePass?, splitAt?_append]
    rfl
  | cons e es ih =>
    obtain ⟨hpoint, hfrom⟩ := h e (by simp)
    have hrest := ih fun d hd => h d (by simp [hd])
    have hslice : (front ++ back).slice? (bytes front) (bytes front) = some [] :=
      slice?_eq_some_iff.mpr ⟨front, back, rfl, rfl, rfl⟩
    rw [clamped, hpoint, hfrom, Nat.min_self, Nat.max_self, onePass?]
    simp only [hpoint, hslice, hrest, Option.bind_eq_bind, Option.bind_some, Option.pure_def]
    simp [pile]

end Splice

/-- **What edits make that replace what is above a place**: the pile of their blocks stands in place
of it. -/
lemma splice?_of_restacks {front lost : Text} (back : Text) {edits : List Edit}
    (h : Restacks (bytes front) (bytes (front ++ lost)) edits) :
    (splice? (front ++ lost ++ back) edits).map Spliced.text =
      some (front ++ pile (edits.map Edit.block) ++ back) := by
  rw [Splice.map_text_splice?, sortEdits_of_point h.point]
  cases edits with
  | nil => cases h
  | cons e es =>
    obtain ⟨⟨hpoint, hfrom⟩, hes⟩ := h
    have hstart : max 0 (min (bytes front) (bytes (front ++ lost))) = bytes front := by
      rw [bytes_append]
      omega
    have hslice : (front ++ lost ++ back).slice? 0 (bytes front) = some front :=
      slice?_eq_some_iff.mpr ⟨[], lost ++ back, by simp, rfl, by simp⟩
    have hrest := Splice.onePass?_of_insertsAt back hes
    rw [Splice.clamped, hpoint, hfrom, hstart, Splice.onePass?]
    simp only [hpoint, hslice, hrest, Option.bind_eq_bind, Option.bind_some, Option.pure_def]
    simp [pile]

/-- What edits make that put blocks in at one place. -/
lemma splice?_of_insertsAt {front : Text} (back : Text) {edits : List Edit} (h : InsertsAt (bytes front) edits)
    (hne : edits ≠ []) :
    (splice? (front ++ back) edits).map Spliced.text = some (front ++ pile (edits.map Edit.block) ++ back) := by
  have hrestacks : Restacks (bytes front) (bytes (front ++ [])) edits := by
    rw [List.append_nil]
    exact h.restacks hne
  have htext := splice?_of_restacks back hrestacks
  rwa [List.append_nil] at htext

/-- **Blocks that were put in are found and replaced.** Documentation comments, each behind its own
indentation, are put in at the start of a line, where the text in front leaves no opener behind its
last closer. Whatever their texts are and whatever stands around them, a search from the place
behind them for `n` comments finds the lowest `n` of them, and all of them if `n` is their number,
exactly from the start of the first to that place. And whatever blocks then replace all of them, the
text is the one that these blocks make when they are put in instead.

**Proof sketch.** Both splices are one pass that leaves a pile of blocks (`splice?_of_restacks`).
Each block of the pile has a text above it that is ready for it, since the block further up ends
with a closer and a line feed, so a search goes up block by block (`precedingRun?_pile`). -/
theorem splice?_restack {before back : Text} {edits : List Edit} (hline : EndsLine before)
    (hclosed : ¬ opener <:+: (splitBehindLast closer before).2) (hne : edits ≠ [])
    (hinserts : InsertsAt (bytes before) edits) (hblocks : ∀ e ∈ edits, IsDocBlock e.block) :
    ∃ s, splice? (before ++ back) edits = some s ∧
      (∀ n, 0 < n → n ≤ edits.length →
        precedingRun? s.text (placeBehind (bytes before) edits) n =
          some ⟨placeBehind (bytes before) (edits.take (edits.length - n)), placeBehind (bytes before) edits⟩) ∧
      ∀ others instead, Restacks (bytes before) (placeBehind (bytes before) edits) others →
        InsertsAt (bytes before) instead → others.map Edit.block = instead.map Edit.block →
          ∃ t t', splice? s.text others = some t ∧ splice? (before ++ back) instead = some t' ∧ t.text = t'.text := by
  obtain ⟨s, hs, htext⟩ := Option.map_eq_some_iff.mp (splice?_of_insertsAt back hinserts hne)
  refine ⟨s, hs, fun n hpos hn => ?_, fun others instead hothers hinstead hsame => ?_⟩
  · rw [← List.length_map Edit.block] at hn
    have hfound := precedingRun?_pile_take back ⟨hline, hclosed⟩ (List.forall_mem_map.mpr hblocks) hpos hn
    rwa [← htext, List.length_map, ← List.map_take, ← placeBehind_eq, ← placeBehind_eq] at hfound
  · rw [placeBehind_eq] at hothers
    have hne' : instead ≠ [] := by
      rintro rfl
      rw [List.map_nil, List.map_eq_nil_iff] at hsame
      rw [hsame] at hothers
      exact hothers
    obtain ⟨t, ht, htext'⟩ := Option.map_eq_some_iff.mp (splice?_of_restacks back hothers)
    obtain ⟨t', ht', htext''⟩ := Option.map_eq_some_iff.mp (splice?_of_insertsAt back hinstead hne')
    exact ⟨t, t', by rw [htext]; exact ht, ht', by rw [htext', htext'', hsame]⟩

/-- Two blocks, the first of which holds an opener, are put in and replaced by one. -/
theorem splice?_restack_two :
    EndsLine "x\n".toList ∧ ¬ opener <:+: (splitBehindLast closer "x\n".toList).2 ∧
      IsDocBlock "\t/** a/*b */".toList ∧ IsDocBlock "/**\n */".toList ∧
      ∃ s, splice? "x\ny".toList [⟨[], 2, 2, "\t/** a/*b */".toList⟩, ⟨[], 2, 2, "/**\n */".toList⟩] = some s ∧
        precedingRun? s.text 23 2 = some ⟨2, 23⟩ ∧ precedingRun? s.text 23 1 = some ⟨15, 23⟩ ∧
        ∃ t t', splice? s.text [⟨[], 23, 2, "/** c */".toList⟩] = some t ∧
          splice? "x\ny".toList [⟨[], 2, 2, "/** c */".toList⟩] = some t' ∧ t.text = t'.text := by
  have hline : EndsLine "x\n".toList := .inr ⟨"x".toList, rfl⟩
  have hclosed : ¬ opener <:+: (splitBehindLast closer "x\n".toList).2 := by decide
  have hfirst : IsDocBlock "\t/** a/*b */".toList := ⟨['\t'], " a/*b ".toList, rfl, by simp, by decide⟩
  have hsecond : IsDocBlock "/**\n */".toList := ⟨[], "\n ".toList, rfl, by simp, by decide⟩
  obtain ⟨s, hs, hfound, hreplaced⟩ := @splice?_restack "x\n".toList "y".toList
    [⟨[], 2, 2, "\t/** a/*b */".toList⟩, ⟨[], 2, 2, "/**\n */".toList⟩] hline hclosed (by decide)
    (by decide) (List.forall_mem_cons.mpr ⟨hfirst, List.forall_mem_singleton.mpr hsecond⟩)
  refine ⟨hline, hclosed, hfirst, hsecond, s, hs, hfound 2 (by decide) (by decide), hfound 1 (by decide) (by decide), ?_⟩
  exact hreplaced [⟨[], 23, 2, "/** c */".toList⟩] [⟨[], 2, 2, "/** c */".toList⟩] (by decide) (by decide) rfl

end DocBlocks
