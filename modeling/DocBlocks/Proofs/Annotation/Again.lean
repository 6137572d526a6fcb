import DocBlocks.Proofs.Annotation.Planned
import DocBlocks.Proofs.Comment.Found
import DocBlocks.Proofs.Description.Closed
import DocBlocks.Proofs.Splice.Insert

/-!
# A second run

A run that replaces nothing leaves alone the units that already have a comment, so a second run on
its own result should find nothing to do. It does so exactly where the search for a comment above a
place finds the blocks of the first run again. Two things can keep it from that: a block put inside
a line takes words off the line of the unit behind it, so that the unit is looked for at another
place; and an opener somewhere in front, say in a string, makes the search take the text from there
on for one comment that is no documentation.

## Main definitions

* `since`: the text between a place and the last place in front of it that got a block.
* `standsOut`, `recognised`: whether a place has a comment in the new text, told by the source.
* `placeAgain`: the place of a unit in the second run, as a place of the source.
* `SameUnits`: the units of the new text are those of the source.
* `AreFresh`: targets that replace nothing.

## Main results

* `isSome_above?_grown_iff`: which places of the new text have a comment.
* `insertionPoint?_grown`: where the second run looks for the comment of a unit.
* `render_grown_eq_documented_iff`: when a run on a source with blocks in it has nothing to do.
* `render_again_iff`: when the second run has nothing to do.
-/

namespace DocBlocks

open Text Comment Splice

/-! ## Places told by the source -/

/-- The text of a source between a place and the last of some places in front of it. -/
def since (source : Text) (points : List Nat) (x : Nat) : Text :=
  (source.slice? (lastBefore points x) x).getD []

/-- Whether the last block put in at a place is found from behind: another block stands right in
front of it, or nothing is left open in front. -/
def standsOut (source : Text) (points : List Nat) (x : Nat) : Bool :=
  2 ≤ points.count x || !leavesOpen (since source points x)

/-- Whether a place has a comment once blocks are put in at some places: one of the blocks, if one
was put in there or is followed by nothing but blanks; otherwise a comment of the source behind the
last of these places. -/
def recognised (source : Text) (points : List Nat) (x : Nat) : Bool :=
  if points.contains x then standsOut source points x
  else if points.contains (lastBefore points x) && (since source points x).all isWhite &&
      !(since source points x).contains '\n' then
    standsOut source points (lastBefore points x)
  else (above? (since source points x)).isSome

/-- The place for the comment of a unit once blocks are put in at some places. A line starts behind
a block, so only what follows the last block in front of the unit can move the place to the start of
the line. -/
def placeAgain (source : Text) (points : List Nat) (u : CodeUnit) : Nat :=
  match source.splitAt? u.span.start with
  | some (before, _) =>
    let lineStart := max (bytes (splitLastLine before).1) (lastBefore points (u.span.start + 1))
    if Placement.moves u.shape ((source.slice? lineStart u.span.start).getD []) then lineStart
    else u.span.start
  | none => 0

/-! ## Places with a comment -/

section Grown

variable {source : Text} {edits : List Edit} (hcut : ∀ e ∈ edits, IsCut source e.point)
  (hblock : ∀ e ∈ edits, IsDocBlock e.block)
  (hstar : ∀ e ∈ edits, ∀ front back, source = front ++ back → bytes front = e.point → front.getLast? ≠ some '*')

include hblock in
/-- What is put in by a list of edits closes. -/
lemma closes_flatMap_added {es : List Edit} (hes : ∀ e ∈ es, e ∈ edits) : Closes (es.flatMap added) := by
  induction es using List.reverseRecOn with
  | nil => exact .inl rfl
  | append_singleton es e _ =>
    obtain ⟨indent, inner, hb, -, -⟩ := hblock e (hes e (by simp))
    refine .inr ⟨es.flatMap added ++ (indent ++ (docOpener ++ inner)), ?_⟩
    rw [List.flatMap_append, List.flatMap_singleton, added, hb]
    simp

/-- The blocks at the end of a front that has grown are those of its place. -/
lemma addedAt_suffix_grown (front : Text) : addedAt edits (bytes front) <:+ grown edits front := by
  induction front using List.reverseRecOn with
  | nil => exact List.suffix_refl _
  | append_singleton front c _ =>
    rw [grown, woven_append_cons, woven, bytes_append, bytes_cons, bytes_nil, Nat.zero_add, Nat.add_zero]
    exact List.suffix_append _ _

include hblock in
/-- A front closes where blocks are put in at its end. -/
lemma closes_grown {front : Text} (h : bytes front ∈ edits.map Edit.point) : Closes (grown edits front) := by
  obtain ⟨e, he, hpoint⟩ := List.mem_map.mp h
  have hne : addedAt edits (bytes front) ≠ [] := by
    intro hnil
    have hnil := List.flatMap_eq_nil_iff.mp hnil e (List.mem_filter.mpr ⟨he, by simpa using hpoint⟩)
    simp [added] at hnil
  rcases closes_flatMap_added hblock (fun e he => List.mem_of_mem_filter he) with hnil | hcloses
  · exact absurd hnil hne
  · exact .inr (hcloses.trans (addedAt_suffix_grown front))

include hcut in
/-- A front can be cut at the last place in front of a place, if that lies in it. -/
lemma exists_append_lastBefore {front back : Text} (hsource : source = front ++ back) {x : Nat}
    (hle : lastBefore (edits.map Edit.point) x ≤ bytes front) :
    ∃ a m, front = a ++ m ∧ bytes a = lastBefore (edits.map Edit.point) x := by
  obtain ⟨-, -, ⟨hmem, -⟩ | ⟨hzero, -⟩⟩ := lastBefore_spec (edits.map Edit.point) x
  · obtain ⟨e, he, hpoint⟩ := List.mem_map.mp hmem
    obtain ⟨a, b, hab, ha⟩ := isCut_iff.mp (hcut e he)
    obtain ⟨m, rfl, -⟩ := exists_of_bytes_le (hab.symm.trans hsource) (by rwa [ha, hpoint])
    exact ⟨a, m, rfl, ha.trans hpoint⟩
  · exact ⟨[], front, rfl, hzero.symm⟩

include hcut hblock in
/-- **A front that has grown**, taken apart at the last place in front of its end that got a
block. -/
lemma grown_eq {front back : Text} (hsource : source = front ++ back) :
    ∃ prior, grown edits front =
        prior ++ since source (edits.map Edit.point) (bytes front) ++ addedAt edits (bytes front) ∧
      Closes prior ∧
      ∃ a, front = a ++ since source (edits.map Edit.point) (bytes front) ∧
        bytes a = lastBefore (edits.map Edit.point) (bytes front) ∧
        (bytes a ∈ edits.map Edit.point ∧ prior = grown edits a ∨
          bytes a = 0 ∧ prior = [] ∧ ∀ p ∈ edits.map Edit.point, bytes front ≤ p) := by
  set points := edits.map Edit.point with hpoints
  obtain ⟨hle, hnone, hcase⟩ := lastBefore_spec points (bytes front)
  have hbetween : ∀ e ∈ edits, e.point ≤ lastBefore points (bytes front) ∨ bytes front ≤ e.point :=
    fun e he => hnone e.point (List.mem_map_of_mem he)
  obtain ⟨a, m, rfl, ha⟩ := exists_append_lastBefore hcut hsource hle
  have hsince : since source points (bytes (a ++ m)) = m := by
    have : source.slice? (bytes a) (bytes a + bytes m) = some m := by
      rw [hsource, List.append_assoc]
      exact slice?_append a m back
    rw [since, ← ha, bytes_append, this]
    rfl
  rw [hsince, ← ha]
  rw [← ha] at hbetween hcase
  rw [bytes_append] at hbetween hcase ⊢
  rcases hcase with ⟨hmem, hlt⟩ | ⟨hzero, hall⟩
  · have hm : m ≠ [] := by
      rintro rfl
      simp at hlt
    exact ⟨grown edits a, grown_append hm hbetween, closes_grown hblock hmem, a, rfl, rfl, .inl ⟨hmem, rfl⟩⟩
  · obtain rfl := bytes_eq_zero_iff.mp hzero
    refine ⟨[], ?_, .inl rfl, [], rfl, rfl, .inr ⟨rfl, rfl, by simpa using hall⟩⟩
    by_cases hm : m = []
    · subst hm
      rfl
    · have hempty : grown edits [] = [] := by
        refine addedAt_eq_nil fun e he => ?_
        have := hall e.point (List.mem_map_of_mem he)
        have := bytes_pos hm
        simp only [bytes_nil] at *
        omega
      rw [grown_append hm hbetween, hempty]

/-- What is put in at a place that gets a block, the last block apart. -/
lemma exists_addedAt_concat {x : Nat} (hx : x ∈ edits.map Edit.point) :
    ∃ es e, (∀ d ∈ es ++ [e], d ∈ edits) ∧ (edits.map Edit.point).count x = es.length + 1 ∧
      addedAt edits x = es.flatMap added ++ added e := by
  obtain ⟨e₀, he₀, hpoint⟩ := List.mem_map.mp hx
  have hne : edits.filter (·.point = x) ≠ [] :=
    List.ne_nil_of_mem (List.mem_filter.mpr ⟨he₀, by simpa using hpoint⟩)
  obtain ⟨es, e, hes⟩ : ∃ es e, edits.filter (·.point = x) = es ++ [e] :=
    ⟨_, _, (List.dropLast_append_getLast hne).symm⟩
  refine ⟨es, e, fun d hd => List.mem_of_mem_filter (hes ▸ hd), ?_, ?_⟩
  · have hsame : edits.filter ((fun y => y == x) ∘ Edit.point) = es ++ [e] := by
      rw [← hes]
      exact List.filter_congr fun d _ => by simp [Function.comp, beq_eq_decide]
    rw [List.count, List.countP_map, List.countP_eq_length_filter, hsame]
    simp
  · rw [addedAt, hes, List.flatMap_append, List.flatMap_singleton]

include hcut hblock hstar in
/-- The last block put in at a place is found from behind, if it stands out, as long as only blanks
with at most one line feed follow. -/
lemma isSome_above?_grown_append_iff {front back blanks : Text} (hsource : source = front ++ back)
    (hpoint : bytes front ∈ edits.map Edit.point) (hblanks : ∀ c ∈ blanks, isWhite c) :
    (above? (grown edits front ++ blanks)).isSome ↔
      '\n' ∉ blanks ∧ standsOut source (edits.map Edit.point) (bytes front) := by
  obtain ⟨prior, hgrown, hprior, a, hfront, -⟩ := grown_eq hcut hblock hsource
  obtain ⟨es, e, hmem, hcount, hadded⟩ := exists_addedAt_concat hpoint
  obtain ⟨indent, inner, hb, hindent, hinner⟩ := hblock e (hmem e (by simp))
  rw [added, hb] at hadded
  have hbreak : lineBreaks ('\n' :: blanks) ≤ 1 ↔ '\n' ∉ blanks := by
    rw [lineBreaks, List.count_cons_self, ← List.count_eq_zero (a := '\n')]
    omega
  have hwhite : ∀ c ∈ '\n' :: blanks, isWhite c := by
    intro c hc
    rcases List.mem_cons.mp hc with rfl | hc
    · decide
    · exact hblanks c hc
  rcases List.eq_nil_or_concat' es with rfl | ⟨es', e', rfl⟩
  · -- a single block: what stands in front of it belongs to the source
    have hlast : (since source (edits.map Edit.point) (bytes front)).getLast? ≠ some '*' := by
      intro h
      obtain ⟨e₀, he₀, hpoint₀⟩ := List.mem_map.mp hpoint
      apply hstar e₀ he₀ front back hsource hpoint₀.symm
      rw [hfront, List.getLast?_append, h]
      rfl
    have hshape : grown edits front ++ blanks =
        prior ++ (since source (edits.map Edit.point) (bytes front) ++
          (indent ++ (docOpener ++ inner ++ closer))) ++ ('\n' :: blanks) := by
      rw [hgrown, hadded]
      simp
    rw [hshape, isSome_above?_comment hlast hindent hinner hprior hwhite, hbreak, standsOut, hcount]
    simp
  · -- several blocks: the one before the last closes
    have hfront' : Closes (prior ++ since source (edits.map Edit.point) (bytes front) ++
        (es' ++ [e']).flatMap added) := by
      rcases closes_flatMap_added hblock (fun d hd => hmem d (List.mem_append_left _ hd)) with hnil | hcloses
      · simp [added] at hnil
      · exact .inr (hcloses.trans (List.suffix_append _ _))
    have hshape : grown edits front ++ blanks =
        (prior ++ since source (edits.map Edit.point) (bytes front) ++ (es' ++ [e']).flatMap added) ++
          ([] ++ (indent ++ (docOpener ++ inner ++ closer))) ++ ('\n' :: blanks) := by
      rw [hgrown, hadded]
      simp only [List.append_assoc, List.nil_append, List.cons_append]
    have hmany : 2 ≤ (edits.map Edit.point).count (bytes front) := by
      rw [hcount]
      simp
    have hnothing : leavesOpen [] = false := by decide
    rw [hshape, isSome_above?_comment (by simp) hindent hinner hfront' hwhite, hbreak, hnothing, standsOut]
    simp [hmany]

include hcut hblock hstar in
/-- **Places with a comment**: a place of the source has a comment in the new text exactly if it is
recognised.

**Proof sketch.** The front of the place has grown to something that closes, the text behind the
last place that got a block, and the blocks at the place itself (`grown_eq`). Where there are such
blocks, the last of them is found if it stands out. Elsewhere the search does not see past a block
in front, unless only blanks without a line feed lie between: then it finds that block. -/
lemma isSome_above?_grown_iff {front back : Text} (hsource : source = front ++ back) :
    (above? (grown edits front)).isSome ↔ recognised source (edits.map Edit.point) (bytes front) := by
  rw [recognised]
  by_cases hpoint : bytes front ∈ edits.map Edit.point
  · have := isSome_above?_grown_append_iff hcut hblock hstar hsource hpoint (by simp : ∀ c ∈ ([] : Text), isWhite c)
    simp only [List.append_nil, List.not_mem_nil, not_false_eq_true, true_and] at this
    rw [if_pos (by simpa using hpoint), this]
  · rw [if_neg (by simpa using hpoint)]
    obtain ⟨prior, hgrown, hprior, a, hfront, ha, hcase⟩ := grown_eq hcut hblock hsource
    have hnone : addedAt edits (bytes front) = [] :=
      addedAt_eq_nil fun e he h => hpoint (List.mem_map.mpr ⟨e, he, h⟩)
    rw [hnone, List.append_nil] at hgrown
    generalize hm : since source (edits.map Edit.point) (bytes front) = m at *
    by_cases hwhite : ∃ c ∈ m, isWhite c = false
    · rw [hgrown, isSome_above?_behind hprior hwhite, if_neg]
      obtain ⟨c, hc, hcw⟩ := hwhite
      simp only [Bool.and_eq_true, List.all_eq_true, not_and]
      intro h
      rw [h.2 c hc] at hcw
      cases hcw
    · have hall : ∀ c ∈ m, isWhite c := by
        intro c hc
        by_contra h
        exact hwhite ⟨c, hc, by simpa using h⟩
      have hnothing : above? m = none := above?_blanks hall
      rw [← ha]
      rcases hcase with ⟨hmem, rfl⟩ | ⟨hzero, rfl, hbehind⟩
      · rw [hgrown, isSome_above?_grown_append_iff hcut hblock hstar
          (by rw [hsource, hfront, List.append_assoc]) hmem hall]
        by_cases hbreak : '\n' ∈ m
        · simp [hbreak, hnothing]
        · rw [if_pos]
          · simp [hbreak]
          · simpa [hbreak, hmem] using hall
      · rw [hgrown, List.nil_append, if_neg]
        intro h
        simp only [Bool.and_eq_true, List.contains_iff_mem] at h
        obtain ⟨⟨hmem, -⟩, -⟩ := h
        have := hbehind _ hmem
        have hfront' : bytes front = bytes a := by omega
        exact hpoint (hfront' ▸ hmem)

/-! ## Places of units -/

include hcut hblock in
/-- **Where a unit is looked for again**: the place in the new text is the one that the source
tells.

**Proof sketch.** The front of the unit is taken apart at the last place that got a block. A block
ends with a line feed, so the last line of the front that has grown is the last line of what
follows, and the text in front of it has grown from the text in front of it in the source. -/
lemma insertionPoint?_grown {u : CodeUnit} {front back : Text} (hsource : source = front ++ back)
    (hstart : bytes front = u.span.start) :
    insertionPoint? (grown edits source) u.shape (moved edits u.span.start) =
        some (moved edits (placeAgain source (edits.map Edit.point) u)) ∧
      IsCut source (placeAgain source (edits.map Edit.point) u) := by
  obtain ⟨-, hnone, hcase⟩ := lastBefore_spec (edits.map Edit.point) (bytes front + 1)
  have hle : lastBefore (edits.map Edit.point) (bytes front + 1) ≤ bytes front := by
    rcases hcase with ⟨-, hlt⟩ | ⟨hzero, -⟩ <;> omega
  obtain ⟨a, m, rfl, ha⟩ := exists_append_lastBefore hcut hsource hle
  -- at the last place at or in front of the unit a line starts
  have hline : EndsLine (grown edits a) := by
    rw [← ha] at hcase
    rcases hcase with ⟨hmem, -⟩ | ⟨hzero, hall⟩
    · exact (closes_grown hblock hmem).endsLine
    · obtain rfl := bytes_eq_zero_iff.mp hzero
      refine .inl (addedAt_eq_nil fun e he => ?_)
      have := hall e.point (List.mem_map_of_mem he)
      omega
  have hplain : ∀ l r, m = l ++ r → grown edits (a ++ l) = grown edits a ++ l := by
    rintro l r rfl
    refine grown_append_plain fun e he => ?_
    have := hnone e.point (List.mem_map_of_mem he)
    simp only [bytes_append] at *
    omega
  obtain ⟨hm, -, -⟩ := splitLastLine_spec m
  have hfront : source = a ++ (splitLastLine m).1 ++ ((splitLastLine m).2 ++ back) := by
    rw [hsource]
    conv_lhs => rw [hm]
    simp
  obtain ⟨rest, hsplit⟩ := splitAt?_grown hsource hcut
  have hslice : source.slice? (bytes (a ++ (splitLastLine m).1)) (bytes (a ++ m)) = some (splitLastLine m).2 := by
    refine slice?_eq_some_iff.mpr ⟨a ++ (splitLastLine m).1, back, hfront, rfl, ?_⟩
    have := congrArg bytes hm
    simp only [bytes_append] at *
    omega
  have hagain : placeAgain source (edits.map Edit.point) u =
      if Placement.moves u.shape (splitLastLine m).2 then bytes (a ++ (splitLastLine m).1)
      else u.span.start := by
    rw [placeAgain, ← hstart, splitAt?_eq_some_iff.mpr ⟨hsource, rfl⟩]
    simp only
    rw [← ha, max_lineStart, hslice]
    rfl
  have hlast : splitLastLine (grown edits (a ++ m)) = (grown edits (a ++ (splitLastLine m).1), (splitLastLine m).2) := by
    rw [hplain m [] (by simp), splitLastLine_of_endsLine m hline, hplain _ _ hm]
  rw [insertionPoint?, ← hstart, hsplit, hagain]
  simp only [hlast]
  constructor
  · split
    · rw [bytes_grown hfront hcut]
    · rw [hstart]
  · refine isCut_iff.mpr ?_
    split
    · exact ⟨_, _, hfront, rfl⟩
    · exact ⟨a ++ m, back, hsource, hstart⟩

end Grown

/-! ## The second run -/

/-- Whether a star stands right in front of a place. -/
def behindStar (source : Text) (x : Nat) : Bool :=
  match source.splitAt? x with
  | some (before, _) => before.getLast? = some '*'
  | none => false

/-- Whether units are the same as those of the source, each at the place it moves to. -/
def SameUnits (edits : List Edit) (units units' : List CodeUnit) : Prop :=
  units'.map (fun u => (u.shape, u.span.start)) = units.map fun u => (u.shape, moved edits u.span.start)

instance (edits : List Edit) (units units' : List CodeUnit) : Decidable (SameUnits edits units units') :=
  inferInstanceAs (Decidable (_ = _))

/-- No block is put in right behind a star if no unit starts there. -/
lemma getLast?_ne_star {source : Text} {u : CodeUnit} {point : Nat}
    (h : insertionPoint? source u.shape u.span.start = some point) (hstar : behindStar source u.span.start = false)
    {front back : Text} (hsource : source = front ++ back) (hpoint : bytes front = point) :
    front.getLast? ≠ some '*' := by
  rw [insertionPoint?] at h
  rw [behindStar] at hstar
  split at h
  · rename_i before rest hs
    obtain ⟨happ, -⟩ := splitAt?_eq_some_iff.mp hs
    rw [hs] at hstar
    obtain ⟨hbefore, -, hlines⟩ := splitLastLine_spec before
    have hpoint' := Option.some.inj h
    split at hpoint'
    · obtain ⟨rfl, -⟩ := append_inj_of_bytes
        (hsource.symm.trans (happ.trans (by conv_lhs => rw [hbefore, List.append_assoc])))
        (hpoint.trans hpoint'.symm)
      rcases hlines with hnil | ⟨l, hl⟩
      · simp [hnil]
      · rw [← hl]
        simp
    · obtain ⟨-, hbytes⟩ := splitAt?_eq_some_iff.mp hs
      obtain ⟨rfl, -⟩ := append_inj_of_bytes (hsource.symm.trans happ) (hpoint.trans (hpoint'.symm.trans hbytes.symm))
      simpa using hstar
  · cases h

/-- Whether a comment is found for a unit of some shape that starts at some place. -/
def CommentFound (source : Text) : CodeUnit.Shape × Nat → Prop
  | (shape, start) => ∃ point, insertionPoint? source shape start = some point ∧ documentedAt source point

/-- A comment is found for a unit if it has its place and a comment there. -/
lemma exists_placed_iff {source : Text} {u : CodeUnit} :
    (∃ p, Placed.of? source u = some p ∧ documentedAt source p.point) ↔
      CommentFound source (u.shape, u.span.start) := by
  constructor
  · rintro ⟨p, hp, hdoc⟩
    exact ⟨p.point, (Placed.of?_eq_some_iff.mp hp).2.1, hdoc⟩
  · rintro ⟨point, hpoint, hdoc⟩
    obtain ⟨p, hp, rfl⟩ := exists_placed hpoint
    exact ⟨p, hp, hdoc⟩

/-! ## Blocks that replace nothing -/

/-- Whether targets are units of a source in their places, and replace nothing. -/
def AreFresh (source : Text) (units : List CodeUnit) (targets : List Target) : Prop :=
  ∀ t ∈ targets, t.unit ∈ units ∧ Placed.of? source t.unit = some t.toPlaced ∧ t.replaceFrom = t.point

lemma areFresh_of_keeping {source : Text} {units : List CodeUnit} {targets : List Target}
    (h : targets? source false units = some targets) : AreFresh source units targets := by
  intro t ht
  obtain ⟨hu, hof, hfrom, -⟩ := mem_targets?_keeping h ht
  exact ⟨hu, hof, hfrom⟩

section Fresh

variable {source : Text} {units : List CodeUnit} {targets : List Target} (hfresh : AreFresh source units targets)

include hfresh in
lemma AreFresh.inserts : Inserts (editsOf targets) :=
  List.forall_mem_map.mpr fun t ht => (hfresh t ht).2.2

include hfresh in
lemma AreFresh.isCut : ∀ e ∈ editsOf targets, IsCut source e.point :=
  List.forall_mem_map.mpr fun t ht => isCut_of_insertionPoint? (Placed.of?_eq_some_iff.mp (hfresh t ht).2.1).2.1

include hfresh in
lemma AreFresh.isDocBlock (hshown : ∀ t ∈ targets, CodeUnit.ShowsNoCloser { t.unit with summary := t.unit.summarize }) :
    ∀ e ∈ editsOf targets, IsDocBlock e.block := by
  refine List.forall_mem_map.mpr fun t ht => ?_
  have hindent := isIndent_of_indentationAt? (Placed.of?_eq_some_iff.mp (hfresh t ht).2.1).2.2
  obtain ⟨inner, hb, hinner⟩ := CodeUnit.block_eq (hshown t ht) (star_not_mem_indent hindent)
  exact ⟨_, inner, hb, hindent, hinner⟩

include hfresh in
lemma AreFresh.getLast?_ne_star (hstar : ∀ u ∈ units, behindStar source u.span.start = false) :
    ∀ e ∈ editsOf targets, ∀ front back, source = front ++ back → bytes front = e.point →
      front.getLast? ≠ some '*' := by
  refine List.forall_mem_map.mpr fun t ht front back hsource hpoint => ?_
  obtain ⟨hu, hof, -⟩ := hfresh t ht
  exact DocBlocks.getLast?_ne_star (Placed.of?_eq_some_iff.mp hof).2.1 (hstar _ hu) hsource hpoint

include hfresh in
/-- A run with such targets makes the source grow by the comments for them. -/
lemma AreFresh.text_eq {s : Session} {overwrite : Bool} {path : Text} {r : Rendered} {d : Dialect}
    (hpath : Path.dialect? path = some d) (hr : (s.render none overwrite path).1 = .ok (.rendered r))
    (horiginal : r.original = source) (hunits : extract d source = .ok units)
    (htargets : targets? source overwrite units = some targets) :
    units ≠ [] ∧ r.text = grown (editsOf targets) source := by
  subst horiginal
  obtain ⟨d₀, units₀, targets₀, extension, hd₀, hunits₀, hne, htargets₀, hsplice⟩ := Session.render_eq_rendered hr
  rw [Session.editsFor_none] at hsplice
  obtain rfl : d₀ = d := Option.some.inj (hd₀.symm.trans hpath)
  obtain rfl : units₀ = units := Except.ok.inj (hunits₀.symm.trans hunits)
  obtain rfl : targets₀ = targets := Option.some.inj (htargets₀.symm.trans htargets)
  exact ⟨hne, text_of_inserts hfresh.inserts hsplice⟩

/-- **A run on a source that has grown** by blocks for its units has nothing to do exactly if the
place of each unit is recognised.

**Proof sketch.** Each unit of the new text has its place where the source tells
(`insertionPoint?_grown`). The run has nothing to do if each of these places has a comment, which
the source tells as well (`isSome_above?_grown_iff`). -/
lemma render_grown_eq_documented_iff {s : Session} {path : Text} {d : Dialect} {units' : List CodeUnit}
    (hpath : Path.dialect? path = some d) (hread : Disk.read s.disk path = .ok (grown (editsOf targets) source))
    (hcuts : ∀ u ∈ units, IsCut source u.span.start) (hne : units ≠ [])
    (hunits' : extract d (grown (editsOf targets) source) = .ok units') (hsame : SameUnits (editsOf targets) units units')
    (hfresh : AreFresh source units targets)
    (hshown : ∀ t ∈ targets, CodeUnit.ShowsNoCloser { t.unit with summary := t.unit.summarize })
    (hstar : ∀ u ∈ units, behindStar source u.span.start = false) :
    (s.render none false path).1 = .ok (.skipped .documented) ↔
      ∀ u ∈ units, recognised source (targets.map (·.point)) (placeAgain source (targets.map (·.point)) u) := by
  have hcut := hfresh.isCut
  have hblock := hfresh.isDocBlock hshown
  have hbehind := hfresh.getLast?_ne_star hstar
  have hpoints : targets.map (·.point) = (editsOf targets).map Edit.point := by simp [editsOf]
  have hrun : (s.render none false path).1 = .ok (.skipped .documented) ↔
      ∀ u ∈ units', CommentFound (grown (editsOf targets) source) (u.shape, u.span.start) := by
    have hne' : units' ≠ [] := by
      rintro rfl
      exact hne (List.map_eq_nil_iff.mp hsame.symm)
    simp only [Session.render_eq_documented_iff, ← exists_placed_iff, ← targets?_eq_nil_iff]
    constructor
    · rintro ⟨d₁, source₁, units₁, hd₁, hread₁, hunits₁, -, hnil⟩
      obtain rfl : d₁ = d := Option.some.inj (hd₁.symm.trans hpath)
      obtain rfl : source₁ = _ := Except.ok.inj (hread₁.symm.trans hread)
      obtain rfl : units₁ = units' := Except.ok.inj (hunits₁.symm.trans hunits')
      exact hnil
    · exact fun hnil => ⟨d, _, units', hpath, hread, hunits', hne', hnil⟩
  have hmoved : (∀ u ∈ units', CommentFound (grown (editsOf targets) source) (u.shape, u.span.start)) ↔
      ∀ u ∈ units, CommentFound (grown (editsOf targets) source) (u.shape, moved (editsOf targets) u.span.start) := by
    have hboth : (∀ x ∈ units'.map fun u => (u.shape, u.span.start), CommentFound (grown (editsOf targets) source) x) ↔
        ∀ x ∈ units.map fun u => (u.shape, moved (editsOf targets) u.span.start),
          CommentFound (grown (editsOf targets) source) x := by
      rw [show units'.map _ = _ from hsame]
    simpa only [List.forall_mem_map] using hboth
  rw [hrun, hmoved, hpoints]
  refine forall₂_congr fun u hu => ?_
  -- the place of a unit in the new text, and whether it has a comment there
  obtain ⟨front, back, hsource, hstart⟩ := isCut_iff.mp (hcuts u hu)
  obtain ⟨hagain, hagaincut⟩ := insertionPoint?_grown hcut hblock hsource hstart
  obtain ⟨front', back', hsource', hbytes'⟩ := isCut_iff.mp hagaincut
  obtain ⟨rest, hsplit⟩ := splitAt?_grown hsource' hcut
  have hdoc : documentedAt (grown (editsOf targets) source) (moved (editsOf targets) (bytes front')) =
      recognised source ((editsOf targets).map Edit.point) (bytes front') := by
    rw [documentedAt, hsplit, Bool.eq_iff_iff]
    exact isSome_above?_grown_iff hcut hblock hbehind hsource'
  rw [hbytes'] at hdoc
  rw [CommentFound, hagain]
  simp [hdoc]

end Fresh

/-- **A second run**: suppose that a run which replaces nothing makes a new text in which the same
units are found, each at the place it moves to, and that its blocks show no closers and no unit
starts right behind a star. Then the second run has nothing to do exactly if the place of each unit
in the second run is recognised.

**Proof sketch.** The new text is the source that has grown (`text_of_inserts`), and the second run
looks there for comments (`render_grown_eq_documented_iff`). -/
theorem render_again_iff {s s' : Session} {path : Text} {r : Rendered} {d : Dialect} {units units' : List CodeUnit}
    {targets : List Target} (hpath : Path.dialect? path = some d)
    (hr : (s.render none false path).1 = .ok (.rendered r)) (hread : Disk.read s'.disk path = .ok r.text)
    (hunits : extract d r.original = .ok units) (htargets : targets? r.original false units = some targets)
    (hunits' : extract d r.text = .ok units') (hsame : SameUnits (editsOf targets) units units')
    (hshown : ∀ t ∈ targets, CodeUnit.ShowsNoCloser { t.unit with summary := t.unit.summarize })
    (hstar : ∀ u ∈ units, behindStar r.original u.span.start = false) :
    (s'.render none false path).1 = .ok (.skipped .documented) ↔
      ∀ u ∈ units, recognised r.original (targets.map (·.point))
        (placeAgain r.original (targets.map (·.point)) u) := by
  have hfresh := areFresh_of_keeping htargets
  obtain ⟨hne, htext⟩ := hfresh.text_eq hpath hr rfl hunits htargets
  rw [htext] at hread hunits'
  refine render_grown_eq_documented_iff hpath hread (fun u hu => ?_) hne hunits' hsame hfresh hshown hstar
  obtain ⟨point, hpoint⟩ := exists_insertionPoint_of_targets? htargets hu
  exact isCut_start_of_insertionPoint? hpoint

/-- A second run has nothing to do about a function that starts its line. -/
theorem render_again_function :
    ((Session.withFile "a.js".toList "/**\n * Performs f\n */\nfunction f(){}".toList).render none false
      "a.js".toList).1 = .ok (.skipped .documented) := by
  refine (@render_again_iff (Session.withFile "a.js".toList "function f(){}".toList) _ "a.js".toList
    ⟨"a.js".toList, "function f(){}".toList, "/**\n * Performs f\n */\nfunction f(){}".toList,
      ["Add comment for f at line 1".toList]⟩
    .javaScript [⟨"f".toList, .function, [], none, ⟨0, 14⟩, false, [], []⟩]
    [⟨"f".toList, .function, [], none, ⟨22, 36⟩, false, [], []⟩]
    [⟨⟨⟨"f".toList, .function, [], none, ⟨0, 14⟩, false, [], []⟩, 0, []⟩, 0⟩]
    ?_ ?_ ?_ ?_ ?_ ?_ ?_ ?_ ?_).mpr ?_
  all_goals decide +kernel

/-- A second run puts a second comment on a function behind a string with an opener: the search
takes the text from the string on for one comment, and that is no documentation. -/
theorem render_again_adds :
    ((Session.withFile "a.js".toList "\"/*\";function f(){}".toList).render none false "a.js".toList).1 =
        .ok (.rendered ⟨"a.js".toList, "\"/*\";function f(){}".toList,
          "\"/*\";/**\n * Performs f\n */\nfunction f(){}".toList, ["Add comment for f at line 1".toList]⟩) ∧
      ((Session.withFile "a.js".toList "\"/*\";/**\n * Performs f\n */\nfunction f(){}".toList).render none false
          "a.js".toList).1 =
        .ok (.rendered ⟨"a.js".toList, "\"/*\";/**\n * Performs f\n */\nfunction f(){}".toList,
          "\"/*\";/**\n * Performs f\n */\n/**\n * Performs f\n */\nfunction f(){}".toList,
          ["Add comment for f at line 4".toList]⟩) := by
  decide +kernel

end DocBlocks
