import DocBlocks.Proofs.Splice.Parts
import Mathlib.Algebra.Order.Ring.Int

/-!
# One pass

A splice changes the text edit by edit, with a shift for all that comes behind. The same text is
made in one pass over the source: what is kept in front of an edit, its block, and so on to the end.
What becomes of a single byte, and what is reported, can be read off this pass.

## Main definitions

* `Splice.Clamped`, `Splice.clamped`: edits with the starts of the texts that they really replace.
* `Splice.onePass?`: the text that one pass makes.
* `Splice.movement`: how far the bytes behind a place move.
* `Splice.IsOnePass`: what one pass tells about a splice.

## Main results

* `Splice.sortEdits_eq_mergeSort`: edits are sorted by a stable sort.
* `Splice.map_text_splice?`: a splice makes what one pass makes.
* `Splice.getElem?_onePass?`: where the bytes of the source are in the new text.
* `Splice.splice?_onePass`: when edits are made, and what comes out.
-/

namespace DocBlocks

open Text

/-- The UTF-8 encoding of a text. -/
def Text.encode (t : Text) : List UInt8 := t.flatMap String.utf8EncodeChar

lemma Text.encode_append (a b : Text) : encode (a ++ b) = encode a ++ encode b := List.flatMap_append

lemma Text.length_encode (t : Text) : (encode t).length = bytes t := by
  induction t with
  | nil => rfl
  | cons c t ih =>
    rw [← List.singleton_append, encode_append, List.length_append, ih, bytes_append]
    simp [encode]

namespace Splice

/-! ## A stable sort -/

/-- **Edits are sorted** by their places, and those at one place stay in their order. -/
lemma sortEdits_eq_mergeSort (edits : List Edit) :
    sortEdits edits = edits.mergeSort fun d e => d.point ≤ e.point := by
  have htrans : ∀ d e f : Edit, decide (d.point ≤ e.point) → decide (e.point ≤ f.point) →
      decide (d.point ≤ f.point) := by
    intro d e f
    simpa only [decide_eq_true_eq] using Nat.le_trans
  have htotal : ∀ d e : Edit, decide (d.point ≤ e.point) || decide (e.point ≤ d.point) := by
    intro d e
    simpa only [Bool.or_eq_true, decide_eq_true_eq] using Nat.le_total d.point e.point
  have hsorted : (edits.mergeSort fun d e => d.point ≤ e.point).Pairwise fun d e => d.point ≤ e.point :=
    (List.pairwise_mergeSort htrans htotal edits).imp of_decide_eq_true
  refine eq_of_filter_point (pairwise_sortEdits edits) hsorted fun i => ?_
  rw [filter_sortEdits]
  -- the edits at one place are in order, so a stable sort keeps them
  have hplace : (edits.filter (·.point = i)).Pairwise fun d e => decide (d.point ≤ e.point) := by
    refine List.pairwise_of_forall_mem_list fun d hd e he => ?_
    simp only [List.mem_filter, decide_eq_true_eq] at hd he ⊢
    omega
  have hsublist : (edits.filter (·.point = i)).Sublist (edits.mergeSort fun d e => d.point ≤ e.point) :=
    List.sublist_mergeSort htrans htotal hplace List.filter_sublist
  have hkept := hsublist.filter (·.point = i)
  rw [List.filter_filter, List.filter_congr fun _ _ => Bool.and_self _] at hkept
  refine hkept.eq_of_length ?_
  exact ((List.mergeSort_perm edits _).filter _).length_eq.symm

/-! ## Clamped edits -/

/-- An edit with the start of the text that it replaces, which is not in front of the place of the
edit before. -/
structure Clamped where
  edit : Edit
  start : Nat
  deriving DecidableEq, Repr, Inhabited

/-- What an edit takes out. -/
def Clamped.range (c : Clamped) : Span := ⟨c.start, c.edit.point⟩

/-- How many bytes an edit puts in beyond what it takes out. -/
def Clamped.growth (c : Clamped) : Int := bytes c.edit.block + 1 - (c.edit.point - c.start)

/-- Edits one behind the other, the first of them behind the place `last`. What each is to replace
starts at the earliest at the place of the edit before it, and at the latest at its own place. -/
def clamped : Nat → List Edit → List Clamped
  | _, [] => []
  | last, e :: es => ⟨e, max last (min e.replaceFrom e.point)⟩ :: clamped e.point es

lemma map_range_clamped (last : Nat) (es : List Edit) : (clamped last es).map Clamped.range = removed last es := by
  induction es generalizing last with
  | nil => rfl
  | cons e es ih => exact congrArg _ (ih e.point)

lemma map_edit_clamped (last : Nat) (es : List Edit) : (clamped last es).map Clamped.edit = es := by
  induction es generalizing last with
  | nil => rfl
  | cons e es ih => exact congrArg _ (ih e.point)

lemma forall_fits_removed_iff {source : Text} {last : Nat} {es : List Edit} :
    (∀ r ∈ removed last es, Fits source r) ↔
      ∀ c ∈ clamped last es, IsCut source c.start ∧ IsCut source c.edit.point := by
  rw [← map_range_clamped, List.forall_mem_map]
  rfl

/-! ## One pass -/

/-- The text that one pass makes of a source from byte `last` on: what is kept in front of what an
edit replaces, its block and a line feed, and so on; in the end what is left. -/
def onePass? (source : Text) : Nat → List Clamped → Option Text
  | last, [] => (source.splitAt? last).map Prod.snd
  | last, c :: cs => do
    let kept ← source.slice? last c.start
    let rest ← onePass? source c.edit.point cs
    return kept ++ c.edit.block ++ ['\n'] ++ rest

/-- One pass needs a source that can be cut at the ends of all that is replaced. -/
lemma isCut_of_onePass? {source out : Text} {last : Nat} {cs : List Clamped} (h : onePass? source last cs = some out) :
    IsCut source last ∧ ∀ c ∈ cs, IsCut source c.start ∧ IsCut source c.edit.point := by
  induction cs generalizing last out with
  | nil =>
    obtain ⟨_, hsplit, -⟩ := Option.map_eq_some_iff.mp h
    exact ⟨Option.isSome_of_eq_some hsplit, by simp⟩
  | cons c cs ih =>
    simp only [onePass?, Option.bind_eq_bind, Option.bind_eq_some_iff] at h
    obtain ⟨kept, hkept, rest, hrest, -⟩ := h
    obtain ⟨hpoint, hcs⟩ := ih hrest
    obtain ⟨a, b, rfl, ha, hstart⟩ := slice?_eq_some_iff.mp hkept
    refine ⟨isCut_iff.mpr ⟨a, kept ++ b, rfl, ha⟩, fun d hd => ?_⟩
    rcases List.mem_cons.mp hd with rfl | hd
    · exact ⟨isCut_iff.mpr ⟨a ++ kept, b, by simp, by simp [hstart]⟩, hpoint⟩
    · exact hcs d hd

/-- **One pass makes the woven text**, if the source can be cut at the ends of all that is replaced.

**Proof sketch.** Induction on the edits. The first takes the rest of the source apart into what it
keeps, what it replaces and what is behind its place (`exists_of_fits`), and the text is woven in
the same way (`woven_cons_edit`). -/
lemma onePass?_eq_some {source : Text} {es : List Edit} (front back : Text) (last : Nat)
    (hs : es.Pairwise fun d e => d.point ≤ e.point) (hl : ∀ e ∈ es, last ≤ e.point) (hsource : source = front ++ back)
    (hfront : bytes front = last) (hfits : ∀ r ∈ removed last es, Fits source r) :
    onePass? source last (clamped last es) =
      some (woven (addedAt es) (isGone (removed last es)) last back) := by
  induction es generalizing front back last with
  | nil =>
    rw [removed, woven_nothing, clamped, onePass?, splitAt?_eq_some_iff.mpr ⟨hsource, hfront⟩]
    rfl
  | cons e es ih =>
    obtain ⟨he, hes⟩ := List.pairwise_cons.mp hs
    obtain ⟨hfirst, hrest⟩ := List.forall_mem_cons.mp hfits
    have hle := hl e (by simp)
    obtain ⟨kept, lost, back', rfl, hkept, hlost⟩ :=
      exists_of_fits hfirst hsource (by simp only; omega) (by simp only; omega)
    simp only [hfront] at hkept hlost
    have hnext := ih (front ++ (kept ++ lost)) back' e.point hes he (by rw [hsource]; simp)
      (by simp only [bytes_append]; omega) hrest
    have hslice : source.slice? last (max last (min e.replaceFrom e.point)) = some kept :=
      slice?_eq_some_iff.mpr ⟨front, lost ++ back', hsource, hfront, by omega⟩
    rw [woven_cons_edit hs hle hkept hlost]
    simp [clamped, onePass?, hslice, hnext, added]

/-- **A splice makes what one pass makes**, and fails where one pass fails. -/
lemma map_text_splice? (source : Text) (edits : List Edit) :
    (splice? source edits).map Spliced.text = onePass? source 0 (clamped 0 (sortEdits edits)) := by
  obtain ⟨htext, hsome⟩ := splice?_text source edits
  cases hsplice : splice? source edits with
  | some s =>
    rw [hsplice] at hsome
    have hpass : onePass? source 0 (clamped 0 (sortEdits edits)) = _ :=
      onePass?_eq_some [] source 0 (pairwise_sortEdits edits) (fun _ _ => Nat.zero_le _) rfl rfl (hsome.mp rfl)
    rw [hpass, addedAt_sortEdits, ← htext s hsplice]
    rfl
  | none =>
    cases hpass : onePass? source 0 (clamped 0 (sortEdits edits)) with
    | none => rfl
    | some out =>
      have hfits := forall_fits_removed_iff.mpr (isCut_of_onePass? hpass).2
      rw [← hsome, hsplice] at hfits
      cases hfits

/-! ## Bytes -/

/-- How far the byte `k` moves: by what the edits put in and take out whose places are not behind
it. -/
def movement (cs : List Clamped) (k : Nat) : Int := ((cs.filter (·.edit.point ≤ k)).map Clamped.growth).sum

/-- Edits behind a byte do not move it. -/
lemma movement_eq_zero {last k : Nat} {es : List Edit} (h : ∀ e ∈ es, k < e.point) :
    movement (clamped last es) k = 0 := by
  have hnone : (clamped last es).filter (·.edit.point ≤ k) = [] := by
    refine List.filter_eq_nil_iff.mpr fun c hc => ?_
    have hmem : c.edit ∈ es := map_edit_clamped last es ▸ List.mem_map_of_mem hc
    simpa using h c.edit hmem
  rw [movement, hnone]
  rfl

/-- **Where a byte is that is not replaced**: one pass puts it as far behind as the edits up to it
move it.

**Proof sketch.** Induction on the edits. A byte in front of what the first edit replaces is in the
text that is kept there, and no edit is in front of it. Any other is behind the place of the first
edit, and the rest of the pass is behind the block of this edit. -/
lemma getElem?_onePass? {source out : Text} {last k : Nat} {es : List Edit}
    (hs : es.Pairwise fun d e => d.point ≤ e.point) (hl : ∀ e ∈ es, last ≤ e.point) (hk : last ≤ k)
    (hkept : ∀ c ∈ clamped last es, ¬(c.start ≤ k ∧ k < c.edit.point))
    (h : onePass? source last (clamped last es) = some out) :
    ∃ k' : Nat, (k' : Int) = k - last + movement (clamped last es) k ∧ (encode out)[k']? = (encode source)[k]? := by
  induction es generalizing last out with
  | nil =>
    obtain ⟨⟨front, back⟩, hsplit, rfl⟩ := Option.map_eq_some_iff.mp h
    obtain ⟨rfl, rfl⟩ := splitAt?_eq_some_iff.mp hsplit
    refine ⟨k - bytes front, ?_, ?_⟩
    · rw [movement_eq_zero (by simp), Int.natCast_sub hk, Int.add_zero]
    · rw [encode_append, List.getElem?_append_right (by rw [length_encode]; exact hk), length_encode]
  | cons e es ih =>
    obtain ⟨he, hes⟩ := List.pairwise_cons.mp hs
    have hle := hl e (by simp)
    obtain ⟨hout, hrest⟩ := List.forall_mem_cons.mp hkept
    simp only [clamped, onePass?, Option.bind_eq_bind, Option.bind_eq_some_iff, Option.pure_def,
      Option.some.injEq] at h
    obtain ⟨kept, hslice, rest, hpass, rfl⟩ := h
    obtain ⟨front, back, hsource, hfront, hstart⟩ := slice?_eq_some_iff.mp hslice
    by_cases hin : k < max last (min e.replaceFrom e.point)
    · refine ⟨k - last, ?_, ?_⟩
      · rw [movement_eq_zero, Int.natCast_sub hk, Int.add_zero]
        intro d hd
        rcases List.mem_cons.mp hd with rfl | hd
        · omega
        · have := he d hd
          omega
      · have hlt : k - last < (encode kept).length := by
          rw [length_encode]
          omega
        simp only [hsource, encode_append, List.append_assoc]
        rw [List.getElem?_append_left hlt, List.getElem?_append_right (by rw [length_encode]; omega), length_encode,
          hfront, List.getElem?_append_left hlt]
    · have hbehind : e.point ≤ k := by
        simp only [not_and, not_lt] at hout
        exact hout (by omega)
      obtain ⟨k', hk', hbyte⟩ := ih hes he hbehind hrest hpass
      refine ⟨bytes (kept ++ e.block ++ ['\n']) + k', ?_, ?_⟩
      · have hmoved : movement (clamped last (e :: es)) k =
            Clamped.growth ⟨e, max last (min e.replaceFrom e.point)⟩ + movement (clamped e.point es) k := by
          simp [clamped, movement, hbehind]
        have hfeed : bytes ['\n'] = 1 := rfl
        rw [hmoved, Clamped.growth, Int.natCast_add, hk', bytes_append, bytes_append, hfeed]
        simp only
        omega
      · rw [encode_append, List.getElem?_append_right (by rw [length_encode]; omega), length_encode,
          Nat.add_sub_cancel_left, hbyte]

/-! ## Reports -/

/-- What is reported on an edit: whether it replaces anything, what it is about, and the line of its
place, which is one behind the line feeds in front of it. -/
def Clamped.Reports (source : Text) (c : Clamped) (line : Text) : Prop :=
  ∃ before behind, source = before ++ behind ∧ bytes before = c.edit.point ∧
    line = (if c.start < c.edit.point then "Replace" else "Add").toList ++ " comment for ".toList ++ c.edit.name ++
      " at line ".toList ++ (toString (1 + lineBreaks before)).toList

/-- The report has one line for each edit, in the order of their places. -/
lemma forall₂_reportFrom {source : Text} {last : Nat} {es : List Edit}
    (h : ∀ c ∈ clamped last es, IsCut source c.start ∧ IsCut source c.edit.point) :
    List.Forall₂ (Clamped.Reports source) (clamped last es) (reportFrom source last es) := by
  induction es generalizing last with
  | nil => exact .nil
  | cons e es ih =>
    obtain ⟨⟨-, hpoint⟩, hrest⟩ := List.forall_mem_cons.mp h
    refine .cons ?_ (ih hrest)
    obtain ⟨before, behind, rfl, hbytes⟩ := isCut_iff.mp hpoint
    refine ⟨before, behind, rfl, hbytes, ?_⟩
    rw [splitAt?_eq_some_iff.mpr ⟨rfl, hbytes⟩, Option.getD_some, Nat.add_comm]
    rfl

/-! ## Splices -/

/-- What one pass tells about what edits make of a source. -/
structure IsOnePass (source : Text) (cs : List Clamped) (s : Spliced) : Prop where
  text : onePass? source 0 cs = some s.text
  /-- Each byte that is not replaced is moved by the edits up to it. -/
  bytes : ∀ k, (∀ c ∈ cs, ¬(c.start ≤ k ∧ k < c.edit.point)) →
    ∃ k' : Nat, (k' : Int) = k + movement cs k ∧ (encode s.text)[k']? = (encode source)[k]?
  report : List.Forall₂ (Clamped.Reports source) cs s.report

/-- **A splice is one pass** over the source, whatever the edits are, also where they are in no
order, overlap, or share a place. It is made exactly if the source can be cut at the place of each
edit and at the start of what the edit really replaces, which reaches neither above the place of the
edit before it nor below its own. Then the new text is, edit by edit in the order of a stable sort
by their places, what is kept, the block and a line feed, and in the end what is left of the source.
A byte that is not replaced moves by what the edits up to it put in and take out, and the report has
one line for each edit.

**Proof sketch.** The insertion sort of a splice is stable (`sortEdits_eq_mergeSort`). What the
shifts come to is said once, place by place (`splice?_text`), and one pass makes the same text
(`map_text_splice?`). Bytes are followed through the pass (`getElem?_onePass?`). -/
theorem splice?_onePass (source : Text) (edits : List Edit) :
    ((splice? source edits).isSome ↔ ∀ c ∈ clamped 0 (edits.mergeSort fun d e => d.point ≤ e.point),
      IsCut source c.start ∧ IsCut source c.edit.point) ∧
    ∀ s, splice? source edits = some s →
      IsOnePass source (clamped 0 (edits.mergeSort fun d e => d.point ≤ e.point)) s := by
  rw [← sortEdits_eq_mergeSort]
  have hsome := (splice?_text source edits).2
  rw [forall_fits_removed_iff] at hsome
  refine ⟨hsome, fun s hs => ?_⟩
  have htext : onePass? source 0 (clamped 0 (sortEdits edits)) = some s.text := by
    rw [← map_text_splice?, hs]
    rfl
  have hbytes : ∀ k, (∀ c ∈ clamped 0 (sortEdits edits), ¬(c.start ≤ k ∧ k < c.edit.point)) →
      ∃ k' : Nat, (k' : Int) = k + movement (clamped 0 (sortEdits edits)) k ∧
        (encode s.text)[k']? = (encode source)[k]? := by
    intro k hk
    obtain ⟨k', hk', hbyte⟩ :=
      getElem?_onePass? (pairwise_sortEdits edits) (fun _ _ => Nat.zero_le _) (Nat.zero_le k) hk htext
    exact ⟨k', by simpa using hk', hbyte⟩
  refine ⟨htext, hbytes, ?_⟩
  rw [report_splice? hs]
  exact forall₂_reportFrom (hsome.mp (by rw [hs]; rfl))

-- the second edit comes first, and the first replaces only what the second has left
example : splice? "aXb".toList [⟨"f".toList, 2, 0, "F".toList⟩, ⟨"g".toList, 1, 0, "G".toList⟩] =
    some ⟨"G\nF\nb".toList,
      ["Replace comment for g at line 1".toList, "Replace comment for f at line 1".toList]⟩ := by
  decide

end Splice

end DocBlocks
