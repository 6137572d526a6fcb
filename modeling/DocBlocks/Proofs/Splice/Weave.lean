import DocBlocks.Splice
import DocBlocks.Proofs.Text.Cut

/-!
# What splicing makes

A splice moves through its edits with a running shift. What comes out can be said place by place:
each place of the source keeps its character, unless an edit takes it out, and gets in front of it
the blocks of the edits at that place, in their order.

## Main definitions

* `Splice.woven`: a source with texts put in and characters taken out, place by place.
* `Splice.addedAt`, `Splice.removed`: what edits put in at a place, and the ranges they take out.
* `Splice.reportFrom`: the report on edits.

## Main results

* `Splice.foldlM_step?`: what a run of edits makes of a splice under way.
* `Splice.splice?_text`: a splice makes the woven source, if the source can be cut where it has to.
* `Splice.report_splice?`: a splice reports on each edit, in the order of the places.
-/

namespace DocBlocks

open Text

/-! ## The order of edits -/

/-- Adding an edit adds it in front of the edits at its place. -/
lemma Edit.filter_insert (e : Edit) (ds : List Edit) (i : Nat) :
    (e.insert ds).filter (·.point = i) = (e :: ds).filter (·.point = i) := by
  induction ds with
  | nil => rfl
  | cons d ds ih =>
    rw [Edit.insert]
    split
    · rfl
    · rename_i h
      have hne : e.point ≠ d.point := by omega
      simp only [List.filter_cons] at ih ⊢
      by_cases he : e.point = i
      · have hd : d.point ≠ i := fun hd => hne (he.trans hd.symm)
        simp [he, hd, ih]
      · simp [he, ih]

/-- Adding an edit adds nothing else. -/
lemma Edit.mem_insert {e d : Edit} {ds : List Edit} : d ∈ e.insert ds ↔ d = e ∨ d ∈ ds := by
  induction ds with
  | nil => simp [Edit.insert]
  | cons x ds ih =>
    rw [Edit.insert]
    split
    · simp
    · simp [ih, or_left_comm]

/-- Adding an edit makes edits longer by it. -/
lemma Edit.length_insert (e : Edit) (ds : List Edit) : (e.insert ds).length = ds.length + 1 := by
  induction ds with
  | nil => rfl
  | cons d ds ih =>
    rw [Edit.insert]
    split
    · rfl
    · rw [List.length_cons, ih, List.length_cons]

/-- Sorting keeps the number of edits. -/
lemma length_sortEdits (edits : List Edit) : (sortEdits edits).length = edits.length := by
  induction edits with
  | nil => rfl
  | cons e edits ih =>
    rw [sortEdits, List.foldr_cons, Edit.length_insert, ← sortEdits, ih]
    rfl

/-- The places of sorted edits ascend. -/
lemma pairwise_sortEdits (edits : List Edit) :
    (sortEdits edits).Pairwise fun d e => d.point ≤ e.point := by
  have insert_sorted : ∀ (e : Edit) (ds : List Edit), ds.Pairwise (fun d e => d.point ≤ e.point) →
      (e.insert ds).Pairwise fun d e => d.point ≤ e.point := by
    intro e ds h
    induction h with
    | nil => simp [Edit.insert]
    | @cons d ds hd hds ih =>
      rw [Edit.insert]
      split
      · rename_i hle
        refine List.pairwise_cons.mpr ⟨fun x hx => ?_, List.pairwise_cons.mpr ⟨hd, hds⟩⟩
        rcases List.mem_cons.mp hx with rfl | hx
        · exact hle
        · exact hle.trans (hd x hx)
      · rename_i hlt
        refine List.pairwise_cons.mpr ⟨fun x hx => ?_, ih⟩
        rcases Edit.mem_insert.mp hx with rfl | hx
        · omega
        · exact hd x hx
  induction edits with
  | nil => exact List.Pairwise.nil
  | cons e edits ih => exact insert_sorted e _ ih

/-- Edits at one place keep their order. -/
lemma filter_sortEdits (edits : List Edit) (i : Nat) :
    (sortEdits edits).filter (·.point = i) = edits.filter (·.point = i) := by
  induction edits with
  | nil => rfl
  | cons e edits ih =>
    rw [sortEdits, List.foldr_cons, Edit.filter_insert, List.filter_cons, List.filter_cons, ← sortEdits, ih]

/-- Sorting leaves no edit out and adds none. -/
@[simp] lemma mem_sortEdits {e : Edit} {edits : List Edit} : e ∈ sortEdits edits ↔ e ∈ edits := by
  have := filter_sortEdits edits e.point
  constructor <;> intro h
  · exact List.mem_of_mem_filter (this ▸ List.mem_filter.mpr ⟨h, by simp⟩)
  · exact List.mem_of_mem_filter (this ▸ List.mem_filter.mpr ⟨h, by simp⟩)

namespace Splice

/-! ## Woven texts -/

/-- A text that starts at byte `i` of a source, with `new` in front of each place and at the end,
and without the characters at the places that are `gone`. -/
def woven (new : Nat → Text) (gone : Nat → Bool) : Nat → Text → Text
  | i, [] => new i
  | i, c :: t => new i ++ (if gone i then [] else [c]) ++ woven new gone (i + c.utf8Size) t

variable {new new' : Nat → Text} {gone gone' : Nat → Bool}

/-- A woven text depends on what is put in and taken out at its own places only. -/
lemma woven_congr {i : Nat} {t : Text} (hnew : ∀ j, i ≤ j → j ≤ i + bytes t → new j = new' j)
    (hgone : ∀ j, i ≤ j → j < i + bytes t → gone j = gone' j) :
    woven new gone i t = woven new' gone' i t := by
  induction t generalizing i with
  | nil => exact hnew i (by simp) (by simp)
  | cons c t ih =>
    have hpos := c.utf8Size_pos
    rw [bytes_cons] at hnew hgone
    rw [woven, woven, hnew i (by omega) (by omega), hgone i (by omega) (by omega),
      ih (fun j hi hj => hnew j (by omega) (by omega)) fun j hi hj => hgone j (by omega) (by omega)]

/-- A woven text, cut in front of a character: nothing is put in there twice. -/
lemma woven_append_cons (i : Nat) (a : Text) (c : Char) (t : Text) :
    woven new gone i (a ++ c :: t) =
      woven new gone i a ++ (if gone (i + bytes a) then [] else [c]) ++
        woven new gone (i + bytes a + c.utf8Size) t := by
  induction a generalizing i with
  | nil => rfl
  | cons d a ih =>
    rw [List.cons_append, woven, ih, woven, bytes_cons]
    simp [Nat.add_assoc]

/-- Behind a place, where nothing is put in or taken out until the end, a woven text goes on as the
source does. -/
lemma woven_append_plain {i : Nat} {a m : Text}
    (hnew : ∀ j, i + bytes a < j → j ≤ i + bytes a + bytes m → new j = [])
    (hgone : ∀ j, i + bytes a ≤ j → j < i + bytes a + bytes m → gone j = false) :
    woven new gone i (a ++ m) = woven new gone i a ++ m := by
  induction m generalizing a with
  | nil => simp
  | cons c m ih =>
    have hpos := c.utf8Size_pos
    rw [bytes_cons] at hnew hgone
    have hstep : woven new gone i (a ++ [c]) = woven new gone i a ++ [c] := by
      rw [woven_append_cons, hgone _ (by omega) (by omega), woven, hnew _ (by omega) (by omega)]
      simp
    have hsplit : a ++ c :: m = (a ++ [c]) ++ m := by simp
    have hbytes : bytes (a ++ [c]) = bytes a + c.utf8Size := by simp
    rw [hsplit, ih (fun j h1 h2 => hnew j (by omega) (by omega))
      (fun j h1 h2 => hgone j (by omega) (by omega)), hstep]
    simp

/-- Over a front in which nothing is put in, and which is taken out as a whole or not at all, a
woven text is the front that is left. -/
lemma woven_append_uniform (lose : Bool) {i : Nat} {a b : Text}
    (hnew : ∀ j, i ≤ j → j < i + bytes a → new j = [])
    (hgone : ∀ j, i ≤ j → j < i + bytes a → gone j = lose) :
    woven new gone i (a ++ b) = (if lose then [] else a) ++ woven new gone (i + bytes a) b := by
  induction a generalizing i with
  | nil => simp
  | cons c a ih =>
    have hpos := c.utf8Size_pos
    rw [bytes_cons] at hnew hgone
    rw [List.cons_append, woven, hnew i le_rfl (by omega), hgone i le_rfl (by omega),
      ih (fun j h1 h2 => hnew j (by omega) (by omega)) (fun j h1 h2 => hgone j (by omega) (by omega))]
    cases lose <;> simp [Nat.add_assoc]

/-! ## What edits put in and take out -/

/-- What an edit puts in: its block on lines of its own. -/
def added (e : Edit) : Text := e.block ++ ['\n']

/-- What edits put in at a place. -/
def addedAt (edits : List Edit) (i : Nat) : Text := (edits.filter (·.point = i)).flatMap added

/-- The ranges that edits take out, one for each edit. None reaches in front of the place of the
edit before; for the first of them that place is `last`. -/
def removed : Nat → List Edit → List Span
  | _, [] => []
  | last, e :: es => ⟨max last (min e.replaceFrom e.point), e.point⟩ :: removed e.point es

/-- Whether a place is in one of some ranges. -/
def isGone (ranges : List Span) (i : Nat) : Bool := ranges.any fun r => r.start ≤ i && i < r.stop

lemma addedAt_cons (e : Edit) (es : List Edit) (i : Nat) :
    addedAt (e :: es) i = (if e.point = i then added e else []) ++ addedAt es i := by
  by_cases h : e.point = i <;> simp [addedAt, h]

/-- Edits put in nothing where none has its place. -/
lemma addedAt_eq_nil {edits : List Edit} {i : Nat} (h : ∀ e ∈ edits, e.point ≠ i) : addedAt edits i = [] := by
  rw [addedAt, List.filter_eq_nil_iff.mpr (by simpa using h), List.flatMap_nil]

/-- Without edits a text stays as it is. -/
lemma woven_nothing (i : Nat) (t : Text) : woven (addedAt []) (isGone []) i t = t := by
  induction t generalizing i with
  | nil => rfl
  | cons c t ih =>
    rw [woven, ih]
    rfl

/-- Sorting changes nothing about what edits put in. -/
@[simp] lemma addedAt_sortEdits (edits : List Edit) : addedAt (sortEdits edits) = addedAt edits := by
  funext i
  rw [addedAt, filter_sortEdits, addedAt]

/-- Every range taken out starts at the earliest at the place of the edit before, and ends at the
place of an edit. -/
lemma le_of_mem_removed {last : Nat} {es : List Edit} (hs : es.Pairwise fun d e => d.point ≤ e.point)
    (hl : ∀ e ∈ es, last ≤ e.point) {r : Span} (hr : r ∈ removed last es) : last ≤ r.start := by
  induction es generalizing last with
  | nil => cases hr
  | cons e es ih =>
    obtain ⟨he, hes⟩ := List.pairwise_cons.mp hs
    rcases List.mem_cons.mp hr with rfl | hr
    · exact le_max_left _ _
    · exact (hl e (by simp)).trans (ih hes he hr)

/-- What comes before a place is not touched by edits behind it. -/
lemma isGone_removed_eq_false {last i : Nat} {es : List Edit} (hs : es.Pairwise fun d e => d.point ≤ e.point)
    (hl : ∀ e ∈ es, last ≤ e.point) (hi : i < last) : isGone (removed last es) i = false := by
  simp only [isGone, List.any_eq_false, Bool.and_eq_true, decide_eq_true_eq, not_and]
  intro r hr hri
  have := le_of_mem_removed hs hl hr
  omega

/-- At and behind the place of the first of several edits, its block is put in front of what the
others make. -/
lemma woven_behind_point {last : Nat} {e : Edit} {es : List Edit} (back : Text) :
    woven (addedAt (e :: es)) (isGone (removed last (e :: es))) e.point back =
      added e ++ woven (addedAt es) (isGone (removed e.point es)) e.point back := by
  have hhere : addedAt (e :: es) e.point = added e ++ addedAt es e.point := by simp [addedAt_cons]
  have hother : ∀ j, e.point < j → addedAt (e :: es) j = addedAt es j := by
    intro j hj
    simp [addedAt_cons, hj.ne]
  have hgone : ∀ j, e.point ≤ j → isGone (removed last (e :: es)) j = isGone (removed e.point es) j := by
    intro j hj
    simp [isGone, removed, hj.not_gt]
  cases back with
  | nil => simpa [woven] using hhere
  | cons c back =>
    have hpos := c.utf8Size_pos
    rw [woven, woven, hhere, hgone _ le_rfl, woven_congr (fun j h1 _ => hother j (by omega))
      (fun j h1 _ => hgone j (by omega))]
    simp

/-- **What the first of several edits does**: it leaves the text up to the start of its range, takes
out the range, and puts its block in front of what the other edits make of the rest. -/
lemma woven_cons_edit {last : Nat} {e : Edit} {es : List Edit} {kept lost back : Text}
    (hs : (e :: es).Pairwise fun d e => d.point ≤ e.point) (hl : last ≤ e.point)
    (hkept : last + bytes kept = max last (min e.replaceFrom e.point))
    (hlost : last + bytes kept + bytes lost = e.point) :
    woven (addedAt (e :: es)) (isGone (removed last (e :: es))) last (kept ++ (lost ++ back)) =
      kept ++ added e ++ woven (addedAt es) (isGone (removed e.point es)) e.point back := by
  obtain ⟨he, hes⟩ := List.pairwise_cons.mp hs
  have hnone : ∀ j, j < e.point → addedAt (e :: es) j = [] := by
    intro j hj
    apply addedAt_eq_nil
    intro d hd
    rcases List.mem_cons.mp hd with rfl | hd
    · omega
    · have := he d hd
      omega
  have hgone : ∀ j, j < e.point → isGone (removed last (e :: es)) j = decide (last + bytes kept ≤ j) := by
    intro j hj
    have hrest : isGone (removed e.point es) j = false := isGone_removed_eq_false hes he hj
    rw [isGone] at hrest
    simp [isGone, removed, hkept, hj, hrest]
  rw [woven_append_uniform false (fun j _ h => hnone j (by omega))
      (fun j _ h => by rw [hgone j (by omega), decide_eq_false (by omega)]),
    woven_append_uniform true (fun j _ h => hnone j (by omega))
      (fun j h1 h2 => by rw [hgone j (by omega), decide_eq_true h1]),
    hlost, woven_behind_point]
  simp

/-! ## Runs -/

/-- A place counted in integers is one counted from zero if it is not negative. -/
lemma toNat?_eq_some {z : Int} {n : Nat} : z.toNat? = some n ↔ z = n := by
  cases z with
  | ofNat m => simp only [Int.toNat?, Option.some.injEq, Int.ofNat_eq_natCast, Int.natCast_inj]
  | negSucc m => simp [Int.toNat?]

/-- Each range that is taken out belongs to an edit, and reaches no further up than the edit asks
for. -/
lemma exists_of_isGone_removed {last i : Nat} {es : List Edit} (h : isGone (removed last es) i) :
    ∃ e ∈ es, e.replaceFrom ≤ i ∧ i < e.point := by
  induction es generalizing last with
  | nil => cases h
  | cons e es ih =>
    simp only [removed, isGone, List.any_cons, Bool.or_eq_true, Bool.and_eq_true, decide_eq_true_eq] at h
    rcases h with h | h
    · exact ⟨e, List.mem_cons_self, by omega, h.2⟩
    · obtain ⟨e', he', hi⟩ := ih h
      exact ⟨e', List.mem_cons_of_mem _ he', hi⟩

/-- Whether a source can be cut at both ends of a range. -/
def Fits (source : Text) (r : Span) : Prop := IsCut source r.start ∧ IsCut source r.stop

/-- A range that fits a source and starts behind a front of it takes the rest of the source
apart. -/
lemma exists_of_fits {source front back : Text} {r : Span} (hfits : Fits source r) (hsource : source = front ++ back)
    (hstart : bytes front ≤ r.start) (hstop : r.start ≤ r.stop) :
    ∃ kept lost back', back = kept ++ (lost ++ back') ∧ bytes front + bytes kept = r.start ∧
      bytes front + bytes kept + bytes lost = r.stop := by
  obtain ⟨a, b, hab, ha⟩ := isCut_iff.mp hfits.1
  obtain ⟨x, y, hxy, hx⟩ := isCut_iff.mp hfits.2
  obtain ⟨kept, rfl, rfl⟩ := exists_of_bytes_le (hsource.symm.trans hab) (by omega)
  obtain ⟨lost, rfl, rfl⟩ := exists_of_bytes_le (hab.symm.trans hxy) (by omega)
  rw [bytes_append] at ha
  rw [bytes_append, bytes_append] at hx
  exact ⟨kept, lost, y, rfl, by omega, by omega⟩

/-- The ranges that edits take out fit a source that can be cut at their places and where their
ranges start. -/
lemma fits_of_mem_removed {source : Text} {last : Nat} {es : List Edit} (hlast : IsCut source last)
    (hcut : ∀ e ∈ es, IsCut source e.point ∧ IsCut source e.replaceFrom) : ∀ r ∈ removed last es, Fits source r := by
  induction es generalizing last with
  | nil => simp [removed]
  | cons e es ih =>
    obtain ⟨hpoint, hfrom⟩ := hcut e (by simp)
    intro r hr
    rcases List.mem_cons.mp hr with rfl | hr
    · refine ⟨?_, hpoint⟩
      have hone : max last (min e.replaceFrom e.point) = last ∨
          max last (min e.replaceFrom e.point) = e.replaceFrom ∨ max last (min e.replaceFrom e.point) = e.point := by
        omega
      rcases hone with h | h | h <;> rwa [h]
    · exact ih hpoint (fun d hd => hcut d (by simp [hd])) r hr

/-- A step of a splice that has reached a place: it is made exactly if the range it takes out fits,
and leaves a text that reaches to the place of its edit. -/
lemma step?_eq {source front kept lost back text : Text} {last : Nat} {shift : Int} {e : Edit} (report : List Text)
    (hsource : source = front ++ (kept ++ (lost ++ back))) (hfront : bytes front = last)
    (hshift : shift = bytes text - last) (hle : last ≤ e.point)
    (hkept : last + bytes kept = max last (min e.replaceFrom e.point))
    (hlost : last + bytes kept + bytes lost = e.point) :
    ∃ report', step? source ⟨text ++ (kept ++ (lost ++ back)), shift, last, report⟩ e =
      some ⟨(text ++ (kept ++ added e)) ++ back, bytes (text ++ (kept ++ added e)) - e.point, e.point, report'⟩ := by
  have hclamp : clamp? last e.point e.replaceFrom = some (last + bytes kept) := by
    rw [clamp?, if_pos hle, hkept]
  have hstart : (((last + bytes kept : Nat) : Int) + shift).toNat? = some (bytes (text ++ kept)) := by
    rw [toNat?_eq_some, bytes_append, hshift]
    omega
  have hstop : ((e.point : Int) + shift).toNat? = some (bytes (text ++ (kept ++ lost))) := by
    rw [toNat?_eq_some, bytes_append, bytes_append, hshift]
    omega
  have hreplace : replace? (text ++ (kept ++ (lost ++ back))) (bytes (text ++ kept))
      (bytes (text ++ (kept ++ lost))) (e.block ++ ['\n']) = some ((text ++ (kept ++ added e)) ++ back) := by
    have h1 := splitAt?_append (text ++ kept) (lost ++ back)
    have h2 := splitAt?_append (text ++ (kept ++ lost)) back
    simp only [List.append_assoc] at h1 h2
    rw [replace?, h1, h2]
    simp [added]
  have hpoint : source.splitAt? e.point = some (front ++ (kept ++ lost), back) := by
    rw [splitAt?_eq_some_iff, hsource]
    simp only [List.append_assoc, bytes_append, true_and]
    omega
  refine ⟨report ++ [reportLine e (last + bytes kept) (lineBreaks (front ++ (kept ++ lost)) + 1)], ?_⟩
  simp only [step?, hclamp, hstart, hstop, hreplace, hpoint, Option.bind_eq_bind, Option.bind_some, Option.pure_def]
  congr 2
  rw [hshift]
  simp only [bytes_append, added]
  omega

/-- A step of a splice that has reached a place needs the range that it takes out to fit. -/
lemma fits_of_step? {source front back text : Text} {last : Nat} {shift : Int} {report : List Text} {e : Edit}
    {s : State} (hsource : source = front ++ back) (hfront : bytes front = last)
    (hshift : shift = bytes text - last) (h : step? source ⟨text ++ back, shift, last, report⟩ e = some s) :
    Fits source ⟨max last (min e.replaceFrom e.point), e.point⟩ := by
  simp only [step?, Option.bind_eq_bind, Option.bind_eq_some_iff] at h
  obtain ⟨start, hclamp, start', hstart, stop', -, new, hreplace, ⟨before, after⟩, hpoint, -⟩ := h
  rw [clamp?, Option.ite_none_right_eq_some] at hclamp
  obtain ⟨hle, hclamp⟩ := hclamp
  obtain rfl : max last (min e.replaceFrom e.point) = start := by simpa using hclamp
  refine ⟨?_, isCut_iff.mpr ⟨before, after, splitAt?_eq_some_iff.mp hpoint⟩⟩
  obtain ⟨n, hn⟩ : ∃ n, max last (min e.replaceFrom e.point) = last + n := ⟨_, (Nat.add_sub_of_le (le_max_left _ _)).symm⟩
  have hstart' : start' = bytes text + n := by
    have := (toNat?_eq_some.mp hstart)
    rw [hn, hshift] at this
    omega
  -- a cut of the text behind `text` is a cut of the source behind `front`
  rw [replace?] at hreplace
  split at hreplace
  · rename_i a b _ _ ha _
    rw [hstart', splitAt?_append_add] at ha
    obtain ⟨⟨x, y⟩, hx, -⟩ := Option.map_eq_some_iff.mp ha
    have hcut : source.splitAt? (last + n) = some (front ++ x, y) := by
      rw [hsource, ← hfront, splitAt?_append_add, hx]
      rfl
    rw [hn, IsCut, hcut]
    rfl
  · cases hreplace

/-- **A run of edits**: it is made exactly if the ranges that its edits take out fit, and makes the
woven text of what is behind the place reached.

**Proof sketch.** Induction on the edits. The state reached is a text, of any length, followed by
the rest of the source; the shift is the difference between that length and the place reached. A
step moves this place to the place of its edit (`step?_eq`), and `woven_cons_edit` says that the
rest of the run is woven from there. -/
lemma foldlM_step? {source : Text} {es : List Edit} (front back text : Text) (last : Nat) (shift : Int)
    (report : List Text) (hs : es.Pairwise fun d e => d.point ≤ e.point) (hl : ∀ e ∈ es, last ≤ e.point)
    (hsource : source = front ++ back) (hfront : bytes front = last) (hshift : shift = bytes text - last) :
    (∀ s, es.foldlM (step? source) ⟨text ++ back, shift, last, report⟩ = some s →
      s.text = text ++ woven (addedAt es) (isGone (removed last es)) last back) ∧
    ((es.foldlM (step? source) ⟨text ++ back, shift, last, report⟩).isSome ↔
      ∀ r ∈ removed last es, Fits source r) := by
  induction es generalizing front back text last shift report with
  | nil => simp [removed, woven_nothing]
  | cons e es ih =>
    obtain ⟨he, hes⟩ := List.pairwise_cons.mp hs
    have hle := hl e (by simp)
    by_cases hfits : Fits source ⟨max last (min e.replaceFrom e.point), e.point⟩
    · obtain ⟨kept, lost, back', rfl, hkept, hlost⟩ :=
        exists_of_fits hfits hsource (by simp only; omega) (by simp only; omega)
      simp only [hfront] at hkept hlost
      obtain ⟨report', hstep⟩ := step?_eq report hsource hfront hshift hle hkept hlost
      have hnext := ih (front ++ (kept ++ lost)) back' (text ++ (kept ++ added e)) e.point
        (bytes (text ++ (kept ++ added e)) - e.point) report' hes he
        (by rw [hsource]; simp) (by simp only [bytes_append]; omega) rfl
      simp only [List.foldlM_cons, hstep, Option.bind_eq_bind, Option.bind_some]
      refine ⟨fun s h => ?_, ?_⟩
      · rw [hnext.1 s h, woven_cons_edit hs hle hkept hlost]
        simp
      · rw [hnext.2]
        simp [removed, hfits]
    · have hnone : step? source ⟨text ++ back, shift, last, report⟩ e = none := by
        rw [Option.eq_none_iff_forall_ne_some]
        intro s h
        exact hfits (fits_of_step? hsource hfront hshift h)
      simp [List.foldlM_cons, hnone, removed, hfits]

/-- **What a splice makes** is the woven source. It is made exactly if the source can be cut at both
ends of each range that the sorted edits take out. -/
theorem splice?_text (source : Text) (edits : List Edit) :
    (∀ s, splice? source edits = some s →
      s.text = woven (addedAt edits) (isGone (removed 0 (sortEdits edits))) 0 source) ∧
    ((splice? source edits).isSome ↔ ∀ r ∈ removed 0 (sortEdits edits), Fits source r) := by
  have h : _ ∧ (((sortEdits edits).foldlM (step? source) ⟨[] ++ source, 0, 0, []⟩).isSome ↔ _) :=
    foldlM_step? [] source [] 0 0 [] (pairwise_sortEdits edits) (fun _ _ => Nat.zero_le _) rfl rfl (by simp)
  rw [List.nil_append, addedAt_sortEdits] at h
  refine ⟨fun s hs => ?_, ?_⟩
  · obtain ⟨s', hs', rfl⟩ := Option.map_eq_some_iff.mp hs
    exact h.1 s' hs'
  · rw [splice?, Option.isSome_map]
    exact h.2

/-! ## Reports -/

/-- The report on edits that come one behind the other, the first of them behind an edit at byte
`last`. -/
def reportFrom (source : Text) : Nat → List Edit → List Text
  | _, [] => []
  | last, e :: es =>
    reportLine e (max last (min e.replaceFrom e.point)) (lineBreaks ((source.splitAt? e.point).getD ([], [])).1 + 1) ::
      reportFrom source e.point es

/-- There is one line for each edit. -/
lemma length_reportFrom (source : Text) (last : Nat) (es : List Edit) :
    (reportFrom source last es).length = es.length := by
  induction es generalizing last with
  | nil => rfl
  | cons e es ih => rw [reportFrom, List.length_cons, ih, List.length_cons]

/-- What one edit adds to the report. -/
lemma report_step? {source : Text} {s s' : State} {e : Edit} (h : step? source s e = some s') :
    s'.last = e.point ∧ s'.report = s.report ++ [reportLine e (max s.last (min e.replaceFrom e.point))
      (lineBreaks ((source.splitAt? e.point).getD ([], [])).1 + 1)] := by
  simp only [step?, Option.bind_eq_bind, Option.bind_eq_some_iff, Option.pure_def, Option.some.injEq] at h
  obtain ⟨start, hstart, _, -, _, -, _, -, ⟨before, rest⟩, hsplit, rfl⟩ := h
  rw [clamp?, Option.ite_none_right_eq_some] at hstart
  obtain ⟨-, hstart⟩ := hstart
  obtain rfl := Option.some.inj hstart
  rw [hsplit]
  exact ⟨rfl, rfl⟩

/-- What a run of edits adds to the report. -/
lemma report_foldlM_step? {source : Text} {es : List Edit} {s s' : State}
    (h : es.foldlM (step? source) s = some s') : s'.report = s.report ++ reportFrom source s.last es := by
  induction es generalizing s with
  | nil =>
    obtain rfl := Option.some.inj h
    rw [reportFrom, List.append_nil]
  | cons e es ih =>
    rw [List.foldlM_cons, Option.bind_eq_bind, Option.bind_eq_some_iff] at h
    obtain ⟨s₁, hstep, hrest⟩ := h
    obtain ⟨hlast, hreport⟩ := report_step? hstep
    rw [ih hrest, hreport, hlast, reportFrom, List.append_assoc]
    rfl

/-- **The report on edits**, in the order of their places. -/
lemma report_splice? {source : Text} {edits : List Edit} {x : Spliced} (h : splice? source edits = some x) :
    x.report = reportFrom source 0 (sortEdits edits) := by
  obtain ⟨s, hs, rfl⟩ := Option.map_eq_some_iff.mp h
  rw [report_foldlM_step? hs, List.nil_append]

/-- **The report** of a splice has one line for each edit. -/
lemma length_report_splice? {source : Text} {edits : List Edit} {s : Spliced} (h : splice? source edits = some s) :
    s.report.length = edits.length := by
  rw [report_splice? h, length_reportFrom, length_sortEdits]

end Splice

end DocBlocks
