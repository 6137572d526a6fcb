import DocBlocks.Proofs.Splice.Weave

/-!
# A source cut into parts

Edits are sorted and made one after the other, each clamped against the one before. What they come
to can be said without the order in which they are made. Each place has a top; the text from there
down to the place gives way to the blocks of all edits at that place. So the source falls into
parts, one in front of each place: a part has a piece that is kept and a piece that is lost.

## Main definitions

* `Splice.Part`: a piece of a source that is kept, and the piece behind it that is lost.
* `Splice.cutOut?`: the parts into which ranges cut a source.
* `Splice.clearedFrom`: the ranges from the tops of places down to the places.

## Main results

* `Splice.cutOut?_spec`: the parts and the rest make up the source.
* `sortEdits_eq_flatMap`: sorted edits are the edits at each place, one place after the other.
* `Splice.splice?_parts`: what edits make of a source, part by part.
-/

namespace DocBlocks

open Text

/-! ## Edits, place by place -/

/-- Edits whose places ascend are told by the edits at each place. -/
lemma eq_of_filter_point {ds es : List Edit} (hd : ds.Pairwise fun d e => d.point ≤ e.point)
    (he : es.Pairwise fun d e => d.point ≤ e.point)
    (h : ∀ i, ds.filter (·.point = i) = es.filter (·.point = i)) : ds = es := by
  induction ds generalizing es with
  | nil =>
    cases es with
    | nil => rfl
    | cons e es => simpa using h e.point
  | cons d ds ih =>
    cases es with
    | nil => simpa using h d.point
    | cons e es =>
      obtain ⟨hdall, hds⟩ := List.pairwise_cons.mp hd
      obtain ⟨heall, hes⟩ := List.pairwise_cons.mp he
      have hde : d ∈ e :: es := List.mem_of_mem_filter (h d.point ▸ List.mem_filter.mpr ⟨by simp, by simp⟩)
      have hed : e ∈ d :: ds := List.mem_of_mem_filter ((h e.point).symm ▸ List.mem_filter.mpr ⟨by simp, by simp⟩)
      -- neither of the two first places is in front of the other
      have hsame : d.point = e.point := by
        have h₁ : e.point ≤ d.point := by
          rcases List.mem_cons.mp hde with hde | hde
          · rw [hde]
          · exact heall d hde
        have h₂ : d.point ≤ e.point := by
          rcases List.mem_cons.mp hed with hed | hed
          · rw [hed]
          · exact hdall e hed
        omega
      have hfirst : d :: ds.filter (·.point = d.point) = e :: es.filter (·.point = d.point) := by
        simpa [hsame] using h d.point
      obtain ⟨rfl, -⟩ := List.cons.inj hfirst
      refine congrArg (d :: ·) (ih hds hes fun i => ?_)
      have hi := h i
      rw [List.filter_cons, List.filter_cons] at hi
      split at hi
      · exact (List.cons.inj hi).2
      · exact hi

/-- Edits, one place after the other, ascend. -/
lemma pairwise_flatMap_filter_point {places : List Nat} (edits : List Edit) (hplaces : places.Pairwise (· < ·)) :
    (places.flatMap fun p => edits.filter (·.point = p)).Pairwise fun d e => d.point ≤ e.point := by
  rw [List.pairwise_flatMap]
  constructor
  · intro p _
    refine List.pairwise_iff_forall_sublist.mpr fun {d e} hsub => ?_
    have hd := hsub.subset (by simp : d ∈ [d, e])
    have he := hsub.subset (by simp : e ∈ [d, e])
    simp only [List.mem_filter, decide_eq_true_eq] at hd he
    omega
  · refine hplaces.imp fun {p q} hpq d hd e he => ?_
    simp only [List.mem_filter, decide_eq_true_eq] at hd he
    omega

/-- **Sorted edits** are the edits at each place, one place after the other. -/
lemma sortEdits_eq_flatMap {edits : List Edit} {places : List Nat} (hplaces : places.Pairwise (· < ·))
    (hmem : ∀ e ∈ edits, e.point ∈ places) :
    sortEdits edits = places.flatMap fun p => edits.filter (·.point = p) := by
  refine eq_of_filter_point (pairwise_sortEdits edits) (pairwise_flatMap_filter_point edits hplaces) fun i => ?_
  have hat : ∀ p, (edits.filter (·.point = p)).filter (·.point = i) =
      if p = i then edits.filter (·.point = i) else [] := by
    intro p
    rw [List.filter_filter]
    split
    · rename_i hp
      refine List.filter_congr fun e _ => ?_
      simp [hp]
    · rename_i hp
      refine List.filter_eq_nil_iff.mpr fun e _ => ?_
      simp only [Bool.and_eq_true, decide_eq_true_eq]
      omega
  rw [filter_sortEdits, List.filter_flatMap]
  simp only [hat]
  -- exactly one of the places is `i`, or no edit is there
  by_cases hi : i ∈ places
  · obtain ⟨before, behind, rfl⟩ := List.append_of_mem hi
    rw [List.pairwise_append, List.pairwise_cons] at hplaces
    have hbefore : (before.flatMap fun p => if p = i then edits.filter (·.point = i) else []) = [] := by
      refine List.flatMap_eq_nil_iff.mpr fun p hp => if_neg ?_
      have := hplaces.2.2 p hp i (by simp)
      omega
    have hbehind : (behind.flatMap fun p => if p = i then edits.filter (·.point = i) else []) = [] := by
      refine List.flatMap_eq_nil_iff.mpr fun p hp => if_neg ?_
      have := hplaces.2.1.1 p hp
      omega
    rw [List.flatMap_append, List.flatMap_cons, hbefore, hbehind, if_pos rfl]
    simp
  · have hnone : edits.filter (·.point = i) = [] := by
      refine List.filter_eq_nil_iff.mpr fun e he => ?_
      simp only [decide_eq_true_eq]
      exact fun h => hi (h ▸ hmem e he)
    rw [hnone]
    simp

namespace Splice

/-! ## Parts -/

/-- A piece of a source that is kept, and the piece behind it that is lost. -/
structure Part where
  kept : Text
  lost : Text
  deriving DecidableEq, Repr, Inhabited

/-- Both pieces of a part. -/
def Part.old (x : Part) : Text := x.kept ++ x.lost

/-- The parts into which ascending ranges cut a text that starts at byte `last` of a source: each
loses its range. Also the text behind the last range. There is no result if the text cannot be cut
at a range. -/
def cutOut? : Nat → List Span → Text → Option (List Part × Text)
  | _, [], text => some ([], text)
  | last, r :: ranges, text => do
    let (kept, text) ← text.splitAt? (r.start - last)
    let (lost, text) ← text.splitAt? (r.stop - r.start)
    let (parts, rest) ← cutOut? r.stop ranges text
    return (⟨kept, lost⟩ :: parts, rest)

/-- The ranges from the tops of ascending places down to the places. None reaches in front of the
place before. -/
def clearedFrom (top : Nat → Nat) : Nat → List Nat → List Span
  | _, [] => []
  | last, p :: places => ⟨max last (top p), p⟩ :: clearedFrom top p places

/-- The first of the parts keeps what is in front of the first range and loses the range. -/
lemma exists_of_cutOut?_cons {last : Nat} {r : Span} {ranges : List Span} {text rest : Text} {parts : List Part}
    (h : cutOut? last (r :: ranges) text = some (parts, rest)) :
    ∃ kept lost text' parts', text = kept ++ (lost ++ text') ∧ bytes kept = r.start - last ∧
      bytes lost = r.stop - r.start ∧ parts = ⟨kept, lost⟩ :: parts' ∧
      cutOut? r.stop ranges text' = some (parts', rest) := by
  simp only [cutOut?, Option.bind_eq_bind, Option.bind_eq_some_iff, Prod.exists, Option.pure_def, Option.some.injEq,
    Prod.mk.injEq] at h
  obtain ⟨kept, text', hkept, lost, text'', hlost, parts', rest', hparts, rfl, rfl⟩ := h
  obtain ⟨rfl, hbytes⟩ := splitAt?_eq_some_iff.mp hkept
  obtain ⟨rfl, hbytes'⟩ := splitAt?_eq_some_iff.mp hlost
  exact ⟨kept, lost, text'', parts', rfl, hbytes, hbytes', rfl, hparts⟩

/-- **The parts** and what is behind them make up the text. -/
lemma cutOut?_spec {last : Nat} {ranges : List Span} {text rest : Text} {parts : List Part}
    (h : cutOut? last ranges text = some (parts, rest)) : text = (parts.map Part.old).flatten ++ rest := by
  induction ranges generalizing last text parts with
  | nil =>
    obtain ⟨rfl, rfl⟩ : [] = parts ∧ text = rest := by simpa [cutOut?] using h
    rfl
  | cons r ranges ih =>
    obtain ⟨kept, lost, text', parts', rfl, -, -, rfl, hparts⟩ := exists_of_cutOut?_cons h
    rw [ih hparts]
    simp [Part.old]

/-- Where no top is above its place, no part loses anything. -/
lemma lost_eq_nil_of_cutOut? {top : Nat → Nat} {places : List Nat} {last : Nat} {text rest : Text} {parts : List Part}
    (h : cutOut? last (clearedFrom top last places) text = some (parts, rest)) (htop : ∀ p ∈ places, top p = p) :
    ∀ x ∈ parts, x.lost = [] := by
  induction places generalizing last text parts with
  | nil =>
    obtain ⟨rfl, -⟩ : [] = parts ∧ text = rest := by simpa [cutOut?, clearedFrom] using h
    simp
  | cons p places ih =>
    obtain ⟨kept, lost, text', parts', -, -, hbytes, rfl, hparts⟩ := exists_of_cutOut?_cons h
    have hnil : lost = [] := by
      rw [← bytes_eq_zero_iff, hbytes, htop p (by simp)]
      exact Nat.sub_eq_zero_of_le (le_max_right last p)
    intro x hx
    rcases List.mem_cons.mp hx with rfl | hx
    · exact hnil
    · exact ih hparts (fun q hq => htop q (by simp [hq])) x hx

/-- **Places without tops** lose nothing: what is kept makes up the text. -/
lemma eq_kept_of_cutOut? {top : Nat → Nat} {places : List Nat} {last : Nat} {text rest : Text} {parts : List Part}
    (h : cutOut? last (clearedFrom top last places) text = some (parts, rest)) (htop : ∀ p ∈ places, top p = p) :
    text = (parts.map Part.kept).flatten ++ rest := by
  have hlost := lost_eq_nil_of_cutOut? h htop
  have hkept : parts.map Part.old = parts.map Part.kept :=
    List.map_congr_left fun x hx => by rw [Part.old, hlost x hx, List.append_nil]
  rw [← hkept]
  exact cutOut?_spec h

/-! ## What edits make of the parts -/

/-- Further edits at a place that replace nothing put their blocks behind the first. -/
lemma woven_same_place {p : Nat} {ds es : List Edit} (back : Text)
    (hs : (ds ++ es).Pairwise fun d e => d.point ≤ e.point) (hds : ∀ d ∈ ds, d.point = p ∧ d.replaceFrom = p) :
    woven (addedAt (ds ++ es)) (isGone (removed p (ds ++ es))) p back =
      ds.flatMap added ++ woven (addedAt es) (isGone (removed p es)) p back := by
  induction ds with
  | nil => rfl
  | cons d ds ih =>
    rw [List.cons_append] at hs ⊢
    obtain ⟨hpoint, hfrom⟩ := hds d (by simp)
    have hrest := ih (List.pairwise_cons.mp hs).2 fun e he => hds e (by simp [he])
    have hstep : woven (addedAt (d :: (ds ++ es))) (isGone (removed p (d :: (ds ++ es)))) p ([] ++ ([] ++ back)) =
        [] ++ added d ++ woven (addedAt (ds ++ es)) (isGone (removed d.point (ds ++ es))) d.point back :=
      woven_cons_edit hs hpoint.ge (by simp [hpoint, hfrom]) (by simp [hpoint])
    rw [List.nil_append, List.nil_append, List.nil_append, hpoint, hrest] at hstep
    rw [hstep, List.flatMap_cons, List.append_assoc]

/-- The edits at a place of which the first alone reaches further up, one by one. -/
lemma exists_edits_at {edits : List Edit} {p top k : Nat}
    (h : (edits.filter (·.point = p)).map Edit.replaceFrom = top :: List.replicate k p) :
    ∃ e ds, edits.filter (·.point = p) = e :: ds ∧ (∀ d ∈ e :: ds, d.point = p) ∧ e.replaceFrom = top ∧
      ∀ d ∈ ds, d.replaceFrom = p := by
  obtain ⟨e, ds, hlist, he, hds⟩ := List.map_eq_cons_iff.mp h
  refine ⟨e, ds, hlist, fun d hd => ?_, he, fun d hd => ?_⟩
  · have := List.of_mem_filter (hlist ▸ hd)
    simpa using this
  · exact List.eq_of_mem_replicate (hds ▸ List.mem_map_of_mem hd)

/-- **Edits in parts**: the text behind a front is cut at the tops of the places and at the places,
and the blocks of each place stand where its part has lost a piece.

**Proof sketch.** Induction on the places. The first edit at a place takes out the range of the
place (`woven_cons_edit`), the others there put their blocks behind its block (`woven_same_place`),
and the rest of the text starts at the place. -/
lemma exists_parts {source : Text} {edits : List Edit} {top : Nat → Nat} {places : List Nat} (front back : Text)
    (hsource : source = front ++ back) (hplaces : places.Pairwise (· < ·)) (hfront : ∀ p ∈ places, bytes front ≤ p)
    (htop : ∀ p ∈ places, top p ≤ p) (hcut : ∀ p ∈ places, IsCut source p ∧ IsCut source (top p))
    (hstart : IsCut source (bytes front))
    (hat : ∀ p ∈ places, ∃ k, (edits.filter (·.point = p)).map Edit.replaceFrom = top p :: List.replicate k p) :
    ∃ parts rest, cutOut? (bytes front) (clearedFrom top (bytes front) places) back = some (parts, rest) ∧
      woven (addedAt (places.flatMap fun p => edits.filter (·.point = p)))
          (isGone (removed (bytes front) (places.flatMap fun p => edits.filter (·.point = p)))) (bytes front) back =
        (List.zipWith (fun x p => x.kept ++ addedAt edits p) parts places).flatten ++ rest := by
  induction places generalizing front back with
  | nil => exact ⟨[], back, rfl, by simpa [removed] using woven_nothing (bytes front) back⟩
  | cons p places ih =>
    have hsorted := pairwise_flatMap_filter_point edits hplaces
    obtain ⟨hp, hrest⟩ := List.pairwise_cons.mp hplaces
    obtain ⟨hcutp, hcuttop⟩ := hcut p (by simp)
    have hle := hfront p (by simp)
    have hletop := htop p (by simp)
    -- the edits at the place: the first replaces the text from the top on, the others replace
    -- nothing
    obtain ⟨k, hfrom⟩ := hat p (by simp)
    obtain ⟨e, ds, heds, hpoint, he, hds⟩ := exists_edits_at hfrom
    have hrange : max (bytes front) (min e.replaceFrom e.point) = max (bytes front) (top p) := by
      rw [he, hpoint e (by simp), min_eq_left hletop]
    obtain ⟨kept, lost, back', rfl, hkept, hlost⟩ :=
      exists_of_fits (r := ⟨max (bytes front) (top p), p⟩) ⟨max_rec' (IsCut source) hstart hcuttop, hcutp⟩ hsource
        (le_max_left _ _) (max_le hle hletop)
    simp only at hkept hlost
    have hnext : bytes (front ++ (kept ++ lost)) = p := by
      simp only [bytes_append]
      omega
    obtain ⟨parts, rest, hparts, hwoven⟩ := ih (front ++ (kept ++ lost)) back' (by rw [hsource]; simp) hrest
      (fun q hq => by rw [hnext]; exact (hp q hq).le) (fun q hq => htop q (by simp [hq]))
      (fun q hq => hcut q (by simp [hq])) (by rw [hnext]; exact hcutp) (fun q hq => hat q (by simp [hq]))
    rw [hnext] at hparts hwoven
    refine ⟨⟨kept, lost⟩ :: parts, rest, ?_, ?_⟩
    · have h₁ : splitAt? (kept ++ (lost ++ back')) (max (bytes front) (top p) - bytes front) =
          some (kept, lost ++ back') := splitAt?_eq_some_iff.mpr ⟨rfl, by omega⟩
      have h₂ : splitAt? (lost ++ back') (p - max (bytes front) (top p)) = some (lost, back') :=
        splitAt?_eq_some_iff.mpr ⟨rfl, by omega⟩
      simp [clearedFrom, cutOut?, h₁, h₂, hparts]
    · rw [List.flatMap_cons, heds, List.cons_append] at hsorted ⊢
      have hplace : addedAt edits p = added e ++ ds.flatMap added := by
        rw [addedAt, heds, List.flatMap_cons]
      rw [woven_cons_edit hsorted (by rw [hpoint e (by simp)]; exact hle) (by rw [hrange]; exact hkept)
        (by rw [hpoint e (by simp)]; exact hlost), hpoint e (by simp),
        woven_same_place back' (List.pairwise_cons.mp hsorted).2 fun d hd => ⟨hpoint d (by simp [hd]), hds d hd⟩,
        hwoven, List.zipWith_cons_cons, List.flatten_cons, hplace]
      simp only [List.append_assoc]

/-- **What edits make of a source, part by part.** At each place, the first edit reaches up to the
top of the place and the others there replace nothing. Then the edits are made, and the blocks of
each place stand in for the piece that its part loses. -/
lemma splice?_parts {source : Text} {edits : List Edit} {top : Nat → Nat} {places : List Nat}
    (hplaces : places.Pairwise (· < ·)) (hmem : ∀ e ∈ edits, e.point ∈ places) (htop : ∀ p ∈ places, top p ≤ p)
    (hcut : ∀ p ∈ places, IsCut source p ∧ IsCut source (top p))
    (hat : ∀ p ∈ places, ∃ k, (edits.filter (·.point = p)).map Edit.replaceFrom = top p :: List.replicate k p) :
    ∃ s parts rest, splice? source edits = some s ∧
      cutOut? 0 (clearedFrom top 0 places) source = some (parts, rest) ∧
      s.text = (List.zipWith (fun x p => x.kept ++ addedAt edits p) parts places).flatten ++ rest := by
  have hstart : IsCut source 0 := isCut_iff.mpr ⟨[], source, rfl, rfl⟩
  obtain ⟨parts, rest, hparts, hwoven⟩ := exists_parts [] source rfl hplaces (fun _ _ => Nat.zero_le _) htop hcut
    hstart hat
  rw [← sortEdits_eq_flatMap hplaces hmem, addedAt_sortEdits] at hwoven
  have hmade : (splice? source edits).isSome := by
    rw [(splice?_text source edits).2]
    refine fits_of_mem_removed hstart fun e he => ?_
    have he := mem_sortEdits.mp he
    have hp := hmem e he
    obtain ⟨hcutp, hcuttop⟩ := hcut e.point hp
    obtain ⟨k, hk⟩ := hat e.point hp
    have hfrom : e.replaceFrom ∈ top e.point :: List.replicate k e.point :=
      hk ▸ List.mem_map_of_mem (List.mem_filter.mpr ⟨he, by simp⟩)
    refine ⟨hcutp, ?_⟩
    rcases List.mem_cons.mp hfrom with h | h
    · rwa [h]
    · rwa [List.eq_of_mem_replicate h]
  obtain ⟨s, hs⟩ := Option.isSome_iff_exists.mp hmade
  refine ⟨s, parts, rest, hs, hparts, ?_⟩
  rw [(splice?_text source edits).1 s hs]
  exact hwoven

end Splice

end DocBlocks
