import DocBlocks.Proofs.Splice.Weave

/-!
# Insertions

Edits that replace nothing only make a source grow. A front of the source is then a front of the new
text, with the blocks in it that go to its places; how far a place moves is the length of the blocks
at and before it.

## Main definitions

* `Splice.Inserts`: edits that replace nothing.
* `Splice.grown`: a front of a source with what is put into it.
* `Splice.moved`: the place in the new text of a place of the source.
* `Splice.lastBefore`: the last of some places before a place.

## Main results

* `Splice.text_of_inserts`: what insertions make of a source.
* `Splice.bytes_grown`: the length of a front that has grown.
* `Splice.lastBefore_spec`: no place lies between a place and the last one before it.
-/

namespace DocBlocks.Splice

open Text

/-- Whether edits replace nothing. -/
def Inserts (edits : List Edit) : Prop := ∀ e ∈ edits, e.replaceFrom = e.point

instance (edits : List Edit) : Decidable (Inserts edits) := List.decidableBAll ..

/-- A front of a source with what edits put into it and at its end. -/
def grown (edits : List Edit) (front : Text) : Text := woven (addedAt edits) (fun _ => false) 0 front

/-- What those edits put in that satisfy a condition. -/
def addedBy (edits : List Edit) (p : Edit → Bool) : Text := (edits.filter p).flatMap added

/-- The place in the new text of what stands at a place of the source, behind the blocks put in
there. -/
def moved (edits : List Edit) (x : Nat) : Nat := x + bytes (addedBy edits (·.point ≤ x))

/-- The place in the new text of what ends at a place of the source, in front of the blocks put in
there. -/
def movedEnd (edits : List Edit) (x : Nat) : Nat := x + bytes (addedBy edits (·.point < x))

/-- Insertions take nothing out. -/
lemma isGone_removed_of_inserts {edits : List Edit} (h : Inserts edits) (last i : Nat) :
    isGone (removed last edits) i = false := by
  induction edits generalizing last with
  | nil => rfl
  | cons e edits ih =>
    have he := h e (by simp)
    have hrest := ih (fun d hd => h d (by simp [hd])) e.point
    have hrange : ¬ (max last (min e.replaceFrom e.point) ≤ i ∧ i < e.point) := by
      rw [he]
      omega
    simp only [isGone] at hrest
    simp [isGone, removed, hrest]
    omega

/-- **What insertions make** of a source is the source that has grown. -/
lemma text_of_inserts {source : Text} {edits : List Edit} {s : Spliced} (hi : Inserts edits)
    (h : splice? source edits = some s) : s.text = grown edits source := by
  rw [(splice?_text source edits).1 s h, grown]
  exact woven_congr (fun _ _ _ => rfl)
    fun j _ _ => isGone_removed_of_inserts (fun e he => hi e (mem_sortEdits.mp he)) 0 j

/-- Insertions are made if the source can be cut at their places. -/
lemma isSome_splice?_of_inserts {source : Text} {edits : List Edit} (hi : Inserts edits)
    (hcut : ∀ e ∈ edits, IsCut source e.point) : (splice? source edits).isSome := by
  rw [(splice?_text source edits).2]
  refine fits_of_mem_removed (isCut_iff.mpr ⟨[], source, rfl, rfl⟩) fun e he => ?_
  have he := mem_sortEdits.mp he
  rw [hi e he]
  exact ⟨hcut e he, hcut e he⟩

/-! ## Fronts -/

variable {edits : List Edit}

/-- A front grows to a front of the new text. -/
lemma grown_prefix (edits : List Edit) (front back : Text) : grown edits front <+: grown edits (front ++ back) := by
  cases back with
  | nil => simp
  | cons c back => exact ⟨_, (by rw [grown, grown, woven_append_cons, List.append_assoc])⟩

/-- Behind the last place that gets a block, the new text goes on as the source does. -/
lemma grown_append_plain {front m : Text}
    (h : ∀ e ∈ edits, e.point ≤ bytes front ∨ bytes front + bytes m < e.point) :
    grown edits (front ++ m) = grown edits front ++ m := by
  refine woven_append_plain (fun j h1 h2 => addedAt_eq_nil fun e he => ?_) fun _ _ _ => rfl
  have := h e he
  omega

/-- Between two places that get blocks, the new text goes on as the source does. -/
lemma grown_append {front m : Text} (hm : m ≠ [])
    (h : ∀ e ∈ edits, e.point ≤ bytes front ∨ bytes front + bytes m ≤ e.point) :
    grown edits (front ++ m) = grown edits front ++ m ++ addedAt edits (bytes front + bytes m) := by
  obtain ⟨m, c, rfl⟩ : ∃ m' c, m = m' ++ [c] := ⟨_, _, (List.dropLast_append_getLast hm).symm⟩
  have hpos := c.utf8Size_pos
  have hbytes : bytes (m ++ [c]) = bytes m + c.utf8Size := by simp
  rw [hbytes] at h ⊢
  have hplain : grown edits (front ++ m) = grown edits front ++ m :=
    grown_append_plain fun e he => by
      have := h e he
      omega
  have hlast : woven (addedAt edits) (fun _ => false) 0 (front ++ m ++ [c]) = _ := woven_append_cons 0 (front ++ m) c []
  rw [← grown, ← grown, hplain, woven] at hlast
  rw [← List.append_assoc, hlast]
  simp [Nat.add_assoc]

section Measure

variable {μ : Text → Nat} (hμ : ∀ a b, μ (a ++ b) = μ a + μ b)

include hμ in
lemma measure_nil : μ [] = 0 := by
  have := hμ [] []
  rw [List.append_nil] at this
  omega

include hμ in
/-- Edits of two sorts put in what each sort puts in. -/
lemma measure_addedBy_or {p q : Edit → Bool} (h : ∀ e ∈ edits, p e → q e = false) :
    μ (addedBy edits fun e => p e || q e) = μ (addedBy edits p) + μ (addedBy edits q) := by
  have hnil := measure_nil hμ
  induction edits with
  | nil => simp [addedBy, hnil]
  | cons e edits ih =>
    have ih := ih fun d hd => h d (by simp [hd])
    have he := h e (by simp)
    rw [addedBy, addedBy, addedBy] at ih ⊢
    cases hp : p e with
    | true =>
      simp only [List.filter_cons, hp, he hp, Bool.true_or, if_true, Bool.false_eq_true, if_false, List.flatMap_cons, hμ]
      omega
    | false =>
      cases hq : q e with
      | true =>
        simp only [List.filter_cons, hp, hq, Bool.or_true, if_true, Bool.false_eq_true, if_false, List.flatMap_cons, hμ]
        omega
      | false => simpa only [List.filter_cons, hp, hq, Bool.or_false, Bool.false_eq_true, if_false] using ih

include hμ in
/-- More edits put in more. -/
lemma measure_addedBy_le {p q : Edit → Bool} (h : ∀ e ∈ edits, p e → q e) :
    μ (addedBy edits p) ≤ μ (addedBy edits q) := by
  have hrest : ∀ e ∈ edits, q e = (p e || (q e && !p e)) := by
    intro e he
    cases hp : p e with
    | true => exact h e he hp
    | false => simp
  have hq : addedBy edits q = addedBy edits fun e => p e || (q e && !p e) :=
    congrArg (·.flatMap added) (List.filter_congr hrest)
  rw [hq, measure_addedBy_or hμ fun e _ hp => by simp [hp]]
  exact Nat.le_add_right _ _

include hμ in
/-- Each edit of a sort is among what the sort puts in. -/
lemma measure_added_le {p : Edit → Bool} {e : Edit} (he : e ∈ edits) (hp : p e) : μ (added e) ≤ μ (addedBy edits p) := by
  obtain ⟨before, behind, h⟩ := List.append_of_mem (List.mem_filter.mpr ⟨he, hp⟩)
  rw [addedBy, h, List.flatMap_append, List.flatMap_cons, hμ, hμ]
  omega

/-- No place of an edit falls into a character. -/
lemma point_of_cut {source front back : Text} {c : Char} (hsource : source = front ++ c :: back)
    (hcut : ∀ e ∈ edits, IsCut source e.point) : ∀ e ∈ edits, e.point ≤ bytes front ∨ bytes front + c.utf8Size ≤ e.point := by
  intro e he
  obtain ⟨a, b, hab, ha⟩ := isCut_iff.mp (hcut e he)
  by_contra hlt
  obtain ⟨m, rfl, hm⟩ := exists_of_bytes_le (hsource.symm.trans hab) (by omega)
  rw [bytes_append] at ha
  cases m with
  | nil =>
    simp at ha
    omega
  | cons d m =>
    obtain rfl : c = d := (List.cons.inj hm).1
    rw [bytes_cons] at ha
    omega

include hμ in
/-- **A front that has grown**, measured: it is longer by the blocks whose places are in it. -/
lemma measure_grown {source front back : Text} (hsource : source = front ++ back)
    (hcut : ∀ e ∈ edits, IsCut source e.point) :
    μ (grown edits front) = μ front + μ (addedBy edits (·.point ≤ bytes front)) := by
  induction front using List.reverseRecOn generalizing back with
  | nil =>
    have hstart : grown edits [] = addedBy edits (·.point ≤ 0) := by simp [grown, woven, addedAt, addedBy]
    rw [hstart, measure_nil hμ, Nat.zero_add]
    rfl
  | append_singleton front c ih =>
    have hsource' : source = front ++ c :: back := by simpa using hsource
    have hbetween := point_of_cut hsource' hcut
    have hbytes : bytes [c] = c.utf8Size := by simp
    have hpos := c.utf8Size_pos
    -- behind one more character, the blocks for the place there come in addition
    have hmore : addedBy edits (·.point ≤ bytes front + c.utf8Size) =
        addedBy edits fun e => decide (e.point ≤ bytes front) || decide (e.point = bytes front + c.utf8Size) := by
      refine congrArg (·.flatMap added) (List.filter_congr fun e he => ?_)
      have := hbetween e he
      rw [← Bool.decide_or]
      exact decide_eq_decide.mpr (by omega)
    have hadd := measure_addedBy_or hμ (fun e (_ : e ∈ edits) hp => by simp at hp ⊢; omega :
      ∀ e ∈ edits, decide (e.point ≤ bytes front) = true → decide (e.point = bytes front + c.utf8Size) = false)
    rw [grown_append (by simp) (by rw [hbytes]; exact hbetween), hbytes, hμ, hμ, ih hsource', hμ, bytes_append, hbytes,
      hmore, hadd]
    rw [addedAt, ← addedBy]
    omega

end Measure

/-- **The length of a front that has grown**: it ends at the place in the new text that its end
moves to. -/
lemma bytes_grown {source front back : Text} (hsource : source = front ++ back)
    (hcut : ∀ e ∈ edits, IsCut source e.point) : bytes (grown edits front) = moved edits (bytes front) :=
  measure_grown bytes_append hsource hcut

/-- The front in the new text of a place of the source. -/
lemma splitAt?_grown {source front back : Text} (hsource : source = front ++ back)
    (hcut : ∀ e ∈ edits, IsCut source e.point) :
    ∃ rest, (grown edits source).splitAt? (moved edits (bytes front)) = some (grown edits front, rest) := by
  obtain ⟨rest, hrest⟩ := grown_prefix edits front back
  refine ⟨rest, splitAt?_eq_some_iff.mpr ⟨?_, bytes_grown hsource hcut⟩⟩
  rw [hsource, hrest]

/-! ## Parts -/

/-- Between what ends at a place and what starts there, the blocks for that place are put in. -/
lemma moved_eq_movedEnd_add (edits : List Edit) (x : Nat) :
    moved edits x = movedEnd edits x + bytes (addedAt edits x) := by
  have hsplit : addedBy edits (·.point ≤ x) = addedBy edits fun e => decide (e.point < x) || decide (e.point = x) := by
    refine congrArg (·.flatMap added) (List.filter_congr fun e _ => ?_)
    rw [← Bool.decide_or]
    exact decide_eq_decide.mpr (by omega)
  rw [moved, movedEnd, hsplit, measure_addedBy_or bytes_append fun e _ hp => by simp at hp ⊢; omega, Nat.add_assoc]
  rfl

/-- Blocks do not turn a range around. -/
lemma movedEnd_le_moved (edits : List Edit) {x y : Nat} (h : y ≤ x) : movedEnd edits y ≤ moved edits x := by
  have := measure_addedBy_le bytes_append (fun e (_ : e ∈ edits) he => by simp at he ⊢; omega :
    ∀ e ∈ edits, decide (e.point < y) = true → decide (e.point ≤ x) = true)
  rw [moved, movedEnd]
  omega

/-- What ends at a place lies behind what stands in front of it. -/
lemma moved_le_movedEnd (edits : List Edit) {x y : Nat} (h : x < y) : moved edits x ≤ movedEnd edits y := by
  have := measure_addedBy_le bytes_append (fun e (_ : e ∈ edits) he => by simp at he ⊢; omega :
    ∀ e ∈ edits, decide (e.point ≤ x) = true → decide (e.point < y) = true)
  rw [moved, movedEnd]
  omega

/-- Places keep their order. -/
lemma moved_lt_moved_iff (edits : List Edit) {x y : Nat} : moved edits x < moved edits y ↔ x < y := by
  have hle : ∀ {x y}, x ≤ y → bytes (addedBy edits (·.point ≤ x)) ≤ bytes (addedBy edits (·.point ≤ y)) := fun h =>
    measure_addedBy_le bytes_append fun e _ he => by simp at he ⊢; omega
  rw [moved, moved]
  constructor
  · intro hlt
    by_contra hge
    have := hle (Nat.le_of_not_lt hge)
    omega
  · intro hlt
    have := hle hlt.le
    omega

section Part

variable {source a m b : Text} (hsource : source = a ++ (m ++ b)) (hm : m ≠ [])
  (hcut : ∀ e ∈ edits, IsCut source e.point)

include hsource hm hcut in
/-- **A part of the source** is a part of the new text, with the blocks whose places are in it. -/
lemma slice?_grown :
    ∃ t, (grown edits source).slice? (moved edits (bytes a)) (movedEnd edits (bytes a + bytes m)) = some t ∧
      grown edits (a ++ m) = grown edits a ++ t ++ addedAt edits (bytes a + bytes m) := by
  obtain ⟨m, c, rfl⟩ : ∃ m' c, m = m' ++ [c] := ⟨_, _, (List.dropLast_append_getLast hm).symm⟩
  obtain ⟨u, hu⟩ := grown_prefix edits a m
  have hlast : woven (addedAt edits) (fun _ => false) 0 (a ++ m ++ [c]) = _ := woven_append_cons 0 (a ++ m) c []
  rw [← grown, ← grown, ← hu, woven] at hlast
  have hgrown : grown edits (a ++ (m ++ [c])) =
      grown edits a ++ (u ++ [c]) ++ addedAt edits (bytes a + bytes (m ++ [c])) := by
    rw [← List.append_assoc, hlast]
    simp [Nat.add_assoc]
  refine ⟨u ++ [c], ?_, hgrown⟩
  obtain ⟨rest, hrest⟩ := grown_prefix edits (a ++ (m ++ [c])) b
  have hlong := bytes_grown (by rw [hsource]; simp : source = a ++ (m ++ [c]) ++ b) hcut
  rw [hgrown, bytes_append, bytes_append, bytes_grown hsource hcut, bytes_append a, moved_eq_movedEnd_add _ (_ + _)]
    at hlong
  have hend : movedEnd edits (bytes a + bytes (m ++ [c])) = moved edits (bytes a) + bytes (u ++ [c]) := by omega
  rw [hend, ← bytes_grown hsource hcut, hsource, ← List.append_assoc, ← hrest, hgrown, List.append_assoc,
    List.append_assoc]
  exact slice?_append _ _ _

include hsource hm hcut in
/-- A part of the source in which no block has its place stays as it is. -/
lemma slice?_grown_plain (h : ∀ e ∈ edits, e.point ≤ bytes a ∨ bytes a + bytes m ≤ e.point) :
    (grown edits source).slice? (moved edits (bytes a)) (movedEnd edits (bytes a + bytes m)) = some m := by
  obtain ⟨t, ht, hgrown⟩ := slice?_grown hsource hm hcut
  rw [grown_append hm h] at hgrown
  rw [ht, List.append_cancel_left (List.append_cancel_right hgrown)]

include hsource hm hcut in
/-- A part of the source is longer in the new text by the blocks whose places are in it. -/
lemma measure_slice?_grown {μ : Text → Nat} (hμ : ∀ a b, μ (a ++ b) = μ a + μ b) :
    ∃ t, (grown edits source).slice? (moved edits (bytes a)) (movedEnd edits (bytes a + bytes m)) = some t ∧
      μ t = μ m + μ (addedBy edits fun e => bytes a < e.point && e.point < bytes a + bytes m) := by
  obtain ⟨t, ht, hgrown⟩ := slice?_grown hsource hm hcut
  refine ⟨t, ht, ?_⟩
  have hlong := measure_grown hμ (by rw [hsource]; simp : source = a ++ m ++ b) hcut
  -- a block up to the end of the part stands up to its start, at its end, or in it
  have hpos := bytes_pos hm
  have hsorts : addedBy edits (·.point ≤ bytes a + bytes m) = addedBy edits fun e =>
      (decide (e.point ≤ bytes a) || decide (e.point = bytes a + bytes m)) ||
        (decide (bytes a < e.point) && decide (e.point < bytes a + bytes m)) := by
    refine congrArg (·.flatMap added) (List.filter_congr fun e _ => ?_)
    rw [← Bool.decide_or, ← Bool.decide_and, ← Bool.decide_or]
    exact decide_eq_decide.mpr (by omega)
  have hin := measure_addedBy_or hμ (fun e (_ : e ∈ edits) hp => by simp at hp ⊢; omega :
    ∀ e ∈ edits, (decide (e.point ≤ bytes a) || decide (e.point = bytes a + bytes m)) = true →
      (decide (bytes a < e.point) && decide (e.point < bytes a + bytes m)) = false)
  have hout := measure_addedBy_or hμ (fun e (_ : e ∈ edits) hp => by simp at hp ⊢; omega :
    ∀ e ∈ edits, decide (e.point ≤ bytes a) = true → decide (e.point = bytes a + bytes m) = false)
  rw [hgrown, hμ, hμ, hμ, measure_grown hμ hsource hcut, bytes_append, hsorts, hin, hout, addedAt, ← addedBy] at hlong
  omega

end Part

/-! ## The last place before a place -/

/-- The last of some places that lies before a place, or the start of the source if there is
none. -/
def lastBefore (points : List Nat) (x : Nat) : Nat := (points.filter (· < x)).foldr max 0

/-- The last place before a place is one of the places, or there is none and it is the start. No
place lies between the two. -/
lemma lastBefore_spec (points : List Nat) (x : Nat) :
    lastBefore points x ≤ x ∧ (∀ p ∈ points, p ≤ lastBefore points x ∨ x ≤ p) ∧
      ((lastBefore points x ∈ points ∧ lastBefore points x < x) ∨
        (lastBefore points x = 0 ∧ ∀ p ∈ points, x ≤ p)) := by
  induction points with
  | nil => simp [lastBefore]
  | cons p points ih =>
    obtain ⟨hle, hnone, hcase⟩ := ih
    by_cases hp : p < x
    · have hstep : lastBefore (p :: points) x = max p (lastBefore points x) := by simp [lastBefore, hp]
      rw [hstep]
      refine ⟨by omega, fun q hq => ?_, .inl ?_⟩
      · rcases List.mem_cons.mp hq with rfl | hq
        · exact .inl (le_max_left _ _)
        · rcases hnone q hq with h | h
          · exact .inl (h.trans (le_max_right _ _))
          · exact .inr h
      · rcases hcase with ⟨hmem, hlt⟩ | ⟨hzero, -⟩
        · rcases Nat.le_total p (lastBefore points x) with h | h
          · rw [max_eq_right h]
            exact ⟨by simp [hmem], hlt⟩
          · rw [max_eq_left h]
            exact ⟨by simp, hp⟩
        · rw [hzero]
          simp [hp]
    · have hstep : lastBefore (p :: points) x = lastBefore points x := by simp [lastBefore, hp]
      rw [hstep]
      refine ⟨hle, fun q hq => ?_, ?_⟩
      · rcases List.mem_cons.mp hq with rfl | hq
        · exact .inr (by omega)
        · exact hnone q hq
      · rcases hcase with ⟨hmem, hlt⟩ | ⟨hzero, hall⟩
        · exact .inl ⟨by simp [hmem], hlt⟩
        · refine .inr ⟨hzero, fun q hq => ?_⟩
          rcases List.mem_cons.mp hq with rfl | hq
          · omega
          · exact hall q hq

end DocBlocks.Splice
