import DocBlocks.Proofs.Annotation.Again
import DocBlocks.Proofs.Annotation.Fixed
import DocBlocks.Proofs.Annotation.Inserted

/-!
# Units on lines of their own

What a second run does is told by the text that the first one makes, and by the units found there.
For most sources it is told by the source alone. Where the blocks of the first run go to places that
take comments, the units are found again, each where its start has moved to. And where no block gets
between the start of a line and a unit on that line, the second run looks for the comment of the
unit at the place that the unit had in the source.

Both kinds of runs then come to what stands in front of each place, back to the last place that got
a block. A run that replaces nothing has nothing to do exactly if the blocks are found again. A run
that overwrites comments, made on a source without any, is the last one that changes the text
exactly if each place is settled.

## Main definitions

* `isAlone`: whether no place but its own lies in front of a unit on its line.
* `Placed.Moved`: a unit in its place, moved with its source.

## Main results

* `exists_units_grown`: the units that a second run finds.
* `placeAgain_of_isAlone`: the places where a second run looks for their comments.
* `render_again_of_isAlone_iff`: when a second run has nothing to do;
  `render_again_of_no_opener`: sources for which it never has.
* `render_overwriting_again_of_isAlone_iff`: when a second run that overwrites comments leaves the
  text of the first one as it is.
-/

namespace DocBlocks

open Syntax Text Comment Splice Extraction

/-! ## Units of the new text -/

lemma isBlock_of_isDocBlock {block : Text} (h : IsDocBlock block) : IsBlock block := by
  obtain ⟨indent, inner, rfl, hindent, hinner⟩ := h
  refine ⟨indent, docOpener ++ inner ++ closer, rfl, List.all_eq_true.mpr fun c hc => ?_,
    isSingle_iff.mpr (.inr ⟨inner, rfl, hinner⟩)⟩
  rcases hindent c hc with rfl | rfl <;> rfl

/-- Units are the same if they are so one by one. -/
lemma sameUnits_iff {edits : List Edit} {units units' : List CodeUnit} :
    SameUnits edits units units' ↔
      List.Forall₂ (fun u v => v.shape = u.shape ∧ v.span.start = moved edits u.span.start) units units' := by
  rw [SameUnits, eq_comm, ← List.forall₂_eq_eq_eq, List.forall₂_map_left_iff, List.forall₂_map_right_iff]
  simp only [Prod.mk.injEq, eq_comm]

/-- **The units that a second run finds**, if the blocks of the first one go to places that take
comments: those of the source, each where its start has moved to. -/
lemma exists_units_grown {d : Dialect} {source : Text} {units : List CodeUnit} {targets : List Target}
    (hpasses : PassesComments (syntaxTree d)) (hunits : extract d source = .ok units)
    (hfresh : AreFresh source units targets)
    (hshown : ∀ t ∈ targets, CodeUnit.ShowsNoCloser { t.unit with summary := t.unit.summarize })
    (htakes : ∀ t ∈ targets, takesComment source (syntaxTree d source) t.point) :
    ∃ units', extract d (grown (editsOf targets) source) = .ok units' ∧
      SameUnits (editsOf targets) units units' ∧
      (List.Forall₂ CodeUnit.Agrees units units' ↔
        ∀ x ∈ foundIn (syntaxTree d source), ∀ n ∈ x.nodes, Untouched (editsOf targets) (spanOf n)) := by
  obtain ⟨hsound, -⟩ := extract_eq_ok_iff.mp hunits
  obtain ⟨x, hx⟩ := Option.isSome_iff_exists.mp (isSome_splice?_of_inserts hfresh.inserts hfresh.isCut)
  have hedits : ∀ e ∈ editsOf targets,
      e.replaceFrom = e.point ∧ IsBlock e.block ∧ takesComment source (syntaxTree d source) e.point :=
    fun e he => ⟨hfresh.inserts e he, isBlock_of_isDocBlock (hfresh.isDocBlock hshown e he),
      (List.forall_mem_map (P := fun e : Edit => takesComment source (syntaxTree d source) e.point)).mpr htakes e he⟩
  have hread : extractBy Grammar.parse d source = .ok units := hunits
  obtain ⟨units', hunits', hmoved, hagree⟩ :=
    exists_units_of_passesComments (fits_syntaxTree hsound).onCuts hpasses hread hedits hx
  rw [text_of_inserts hfresh.inserts hx] at hunits'
  exact ⟨units', hunits', sameUnits_iff.mpr hmoved, hagree⟩

/-! ## Places in the new text -/

/-- Whether no place lies in front of a unit on its line, unless it is the place of the unit. -/
def isAlone (source : Text) (points : List Nat) (u : CodeUnit) : Bool :=
  (source.splitAt? u.span.start).any fun (before, _) =>
    points.all fun p =>
      p ≤ bytes (splitLastLine before).1 || u.span.start < p || insertionPoint? source u.shape u.span.start = some p

section Alone

variable {front back : Text} {u : CodeUnit}

/-- What it means for a unit to be alone, told by the text in front of it. -/
lemma forall_of_isAlone {points : List Nat} (hstart : bytes front = u.span.start)
    (halone : isAlone (front ++ back) points u) :
    ∀ p ∈ points, p ≤ bytes (splitLastLine front).1 ∨ bytes front < p ∨
      Placement.moves u.shape (splitLastLine front).2 = false ∧ bytes front = p := by
  intro p hp
  rw [isAlone, ← hstart, splitAt?_append, Option.any_some, List.all_eq_true] at halone
  have hplace := halone p hp
  simp only [insertionPoint?_append, Bool.or_eq_true, decide_eq_true_eq, Option.some.injEq] at hplace
  rcases hplace with (hle | hlt) | hown
  · exact .inl hle
  · exact .inr (.inl hlt)
  · cases hmoves : Placement.moves u.shape (splitLastLine front).2 with
    | true =>
      rw [hmoves, if_pos rfl] at hown
      exact .inl hown.ge
    | false =>
      rw [hmoves, if_neg (by simp)] at hown
      exact .inr (.inr ⟨rfl, hown⟩)

/-- **The place of a unit in the second run** is the one that it had in the source, if no other
place lies in front of the unit on its line. -/
lemma placeAgain_of_isAlone {source : Text} {points : List Nat} (hcut : IsCut source u.span.start)
    (halone : isAlone source points u) :
    insertionPoint? source u.shape u.span.start = some (placeAgain source points u) := by
  obtain ⟨before, behind, rfl, hstart⟩ := isCut_iff.mp hcut
  have hpoints := forall_of_isAlone hstart halone
  obtain ⟨hbefore, -, -⟩ := splitLastLine_spec before
  have hlong := congrArg bytes hbefore
  rw [bytes_append] at hlong
  obtain ⟨-, -, hcase⟩ := lastBefore_spec points (bytes before + 1)
  have hslice : ∀ a m, before = a ++ m → (before ++ behind).slice? (bytes a) (bytes before) = some m := by
    rintro a m rfl
    rw [List.append_assoc, bytes_append]
    exact slice?_append a m behind
  rw [placeAgain, ← hstart, splitAt?_append, insertionPoint?_append]
  simp only [Option.some.injEq]
  -- the last place up to the unit lies in front of the line, or it is the start of the unit
  have hlast : lastBefore points (bytes before + 1) ≤ bytes (splitLastLine before).1 ∨
      Placement.moves u.shape (splitLastLine before).2 = false ∧ bytes before = lastBefore points (bytes before + 1) := by
    rcases hcase with ⟨hmem, hlt⟩ | ⟨hzero, -⟩
    · rcases hpoints _ hmem with hle | hlt' | hown
      · exact .inl hle
      · omega
      · exact .inr hown
    · omega
  rcases hlast with hle | ⟨hmoves, hown⟩
  · rw [max_eq_left hle, hslice _ _ hbefore]
    rfl
  · rw [max_eq_right (by omega), ← hown, hmoves, if_neg (by simp), ite_self]

end Alone

/-! ## Runs that replace nothing -/

/-- **A second run over units on lines of their own**: suppose that a run which replaces nothing
puts its blocks, which show no closers, at places that take comments, and that no unit starts right
behind a star or has another unit's place in front of it on its line. Then the second run has
nothing to do exactly if the place of each unit is recognised.

**Proof sketch.** The units are found again (`exists_units_grown`) and looked for at the places that
they had in the source (`placeAgain_of_isAlone`). -/
lemma render_again_of_isAlone_iff {s s' : Session} {path : Text} {r : Rendered} {d : Dialect} {units : List CodeUnit}
    {placed : List Placed} {targets : List Target} (hpasses : PassesComments (syntaxTree d))
    (hpath : Path.dialect? path = some d) (hr : (s.render none false path).1 = .ok (.rendered r))
    (hread : Disk.read s'.disk path = .ok r.text) (hunits : extract d r.original = .ok units)
    (hplaced : units.map (Placed.of? r.original) = placed.map some)
    (htargets : targets? r.original false units = some targets)
    (hshown : ∀ t ∈ targets, CodeUnit.ShowsNoCloser { t.unit with summary := t.unit.summarize })
    (hstar : ∀ u ∈ units, behindStar r.original u.span.start = false)
    (htakes : ∀ t ∈ targets, takesComment r.original (syntaxTree d r.original) t.point)
    (halone : ∀ u ∈ units, isAlone r.original (targets.map (·.point)) u) :
    (s'.render none false path).1 = .ok (.skipped .documented) ↔
      ∀ q ∈ placed, recognised r.original (targets.map (·.point)) q.point := by
  have hfresh := areFresh_of_keeping htargets
  obtain ⟨hne, htext⟩ := hfresh.text_eq hpath hr rfl hunits htargets
  rw [htext] at hread
  obtain ⟨units', hunits', hsame, -⟩ := exists_units_grown hpasses hunits hfresh hshown htakes
  have hcuts := isCut_of_extract hunits
  rw [render_grown_eq_documented_iff hpath hread hcuts hne hunits' hsame hfresh hshown hstar]
  have hagain : ∀ u ∈ units, ∀ q, Placed.of? r.original u = some q →
      placeAgain r.original (targets.map (·.point)) u = q.point := by
    intro u hu q hq
    have hplace := placeAgain_of_isAlone (hcuts u hu) (halone u hu)
    rw [(Placed.of?_eq_some_iff.mp hq).2.1] at hplace
    exact (Option.some.inj hplace).symm
  have hof := forall₂_of_mapM (mapM_eq_some_iff.mpr hplaced)
  exact forall_mem_iff_of_forall₂ (((List.forall₂_and_left _ _).mpr ⟨fun _ hu => hu, hof⟩).imp
    fun u q ⟨hu, hq⟩ => by rw [hagain u hu q hq])

/-! ## Sources without comments -/

/-- The target that puts a comment in at the place of a unit. -/
def Placed.toTarget (q : Placed) : Target := { q with replaceFrom := q.point }

/-- No place has a comment if nothing opens one. -/
lemma documentedAt_of_no_opener {source : Text} (h : ¬ opener <:+: source) (x : Nat) :
    documentedAt source x = false := by
  rw [documentedAt]
  split
  · rename_i before rest hsplit
    obtain ⟨rfl, -⟩ := splitAt?_eq_some_iff.mp hsplit
    rw [Option.isSome_eq_false_iff, Option.isNone_iff_eq_none, Option.eq_none_iff_forall_ne_some]
    intro top habove
    obtain ⟨front, comment, blanks, rfl, -, -, hlast, -, -⟩ := above?_eq_some_iff.mp habove
    obtain ⟨u, rfl⟩ := opener_of_lastComment? hlast
    exact h ⟨front, u ++ blanks ++ rest, by simp⟩
  · rfl

lemma since_isInfix (source : Text) (points : List Nat) (x : Nat) : since source points x <:+: source := by
  rw [since]
  cases hslice : source.slice? (lastBefore points x) x with
  | none => exact List.nil_infix
  | some m =>
    obtain ⟨front, back, rfl, -⟩ := slice?_eq_some_iff.mp hslice
    exact ⟨front, back, by simp⟩

/-- Blocks stand out if nothing opens a comment. -/
lemma standsOut_of_no_opener {source : Text} (h : ¬ opener <:+: source) (points : List Nat) (x : Nat) :
    standsOut source points x := by
  obtain ⟨⟨e, tail⟩, hsplit⟩ : ∃ found, splitBehindLast closer (since source points x) = found := ⟨_, rfl⟩
  obtain ⟨hsince, -, -⟩ := (splitBehindLast_eq_iff (by decide)).mp hsplit
  have htail : tail <:+: source := (hsince ▸ List.suffix_append e tail).isInfix.trans (since_isInfix source points x)
  have hopens : breakAt? opener tail = none := breakAt?_eq_none_iff.mpr fun hopens => h (hopens.trans htail)
  rw [standsOut, leavesOpen, hsplit]
  simp [hopens]

section Bare

variable {source : Text} {units : List CodeUnit} {placed : List Placed}

/-- Where no unit has a comment, each gets one that replaces nothing. -/
lemma targetsAmong_bare (overwrite : Bool) (points claimed : List Nat)
    (hbare : ∀ q ∈ placed, documentedAt source q.point = false) :
    targetsAmong source overwrite points claimed placed = placed.map Placed.toTarget := by
  induction placed with
  | nil => rfl
  | cons q placed ih =>
    have hnone : standing? source points q.point = none := by
      rw [← Option.isNone_iff_eq_none, ← Option.isSome_eq_false_iff, isSome_standing?]
      exact hbare q (by simp)
    rw [targetsAmong, hnone]
    simp only
    rw [ih fun q hq => hbare q (by simp [hq])]
    rfl

lemma areFresh_toTarget (hplaced : units.map (Placed.of? source) = placed.map some) :
    AreFresh source units (placed.map Placed.toTarget) := by
  refine List.forall_mem_map.mpr fun q hq => ?_
  obtain ⟨u, hu, hof⟩ := exists_mem_of_mapM (mapM_eq_some_iff.mpr hplaced) hq
  obtain rfl : q.unit = u := (Placed.of?_eq_some_iff.mp hof).1
  exact ⟨hu, hof, rfl⟩

/-- **The first run on a source without comments** puts a block in at the place of each unit. -/
lemma exists_rendered_bare {s : Session} (overwrite : Bool) {path : Text} {d : Dialect}
    (hpath : Path.dialect? path = some d) (hread : Disk.read s.disk path = .ok source)
    (hunits : extract d source = .ok units) (hne : units ≠ [])
    (hplaced : units.map (Placed.of? source) = placed.map some)
    (hbare : ∀ q ∈ placed, documentedAt source q.point = false) :
    ∃ r, (s.render none overwrite path).1 = .ok (.rendered r) ∧ r.original = source ∧
      r.text = grown (editsOf (placed.map Placed.toTarget)) source := by
  have hfresh := areFresh_toTarget hplaced
  have htargets := targets?_of_placed hplaced overwrite
  rw [targetsAmong_bare overwrite _ _ hbare] at htargets
  have hsome : placed.map Placed.toTarget ≠ [] := by
    intro hnil
    rw [List.map_eq_nil_iff.mp hnil] at hplaced
    exact hne (List.map_eq_nil_iff.mp hplaced)
  obtain ⟨x, hx⟩ := Option.isSome_iff_exists.mp (isSome_splice?_of_inserts hfresh.inserts hfresh.isCut)
  have hrender := Session.render_of_targets? none hpath hread hunits htargets
  rw [if_neg hne, if_neg hsome, Session.editsFor_none, hx] at hrender
  exact ⟨_, hrender, rfl, text_of_inserts hfresh.inserts hx⟩

end Bare

/-- **Nothing is left to do**: if nothing in a source opens a comment, and its units are alone on
their lines at places that take comments, then a first run gives each unit a comment, and a second
run has nothing to do. -/
lemma render_again_of_no_opener {s : Session} {path source : Text} {d : Dialect} {units : List CodeUnit}
    {placed : List Placed} (hpasses : PassesComments (syntaxTree d)) (hpath : Path.dialect? path = some d)
    (hread : Disk.read s.disk path = .ok source) (hunits : extract d source = .ok units) (hne : units ≠ [])
    (hplaced : units.map (Placed.of? source) = placed.map some) (hopener : ¬ opener <:+: source)
    (hshown : ∀ u ∈ units, CodeUnit.ShowsNoCloser { u with summary := u.summarize })
    (hstar : ∀ u ∈ units, behindStar source u.span.start = false)
    (htakes : ∀ q ∈ placed, takesComment source (syntaxTree d source) q.point)
    (halone : ∀ u ∈ units, isAlone source (placed.map Placed.point) u) :
    ∃ r, (s.render none false path).1 = .ok (.rendered r) ∧
      ∀ s' : Session, Disk.read s'.disk path = .ok r.text → (s'.render none false path).1 = .ok (.skipped .documented) := by
  have hbare := fun q (_ : q ∈ placed) => documentedAt_of_no_opener hopener q.point
  obtain ⟨r, hr, rfl, -⟩ := exists_rendered_bare false hpath hread hunits hne hplaced hbare
  refine ⟨r, hr, fun s' hread' => ?_⟩
  have htargets := targets?_of_placed hplaced false
  rw [targetsAmong_bare false _ _ hbare] at htargets
  have hpoints : (placed.map Placed.toTarget).map (·.point) = placed.map Placed.point := by
    rw [List.map_map]
    rfl
  have hfresh := areFresh_toTarget hplaced
  refine (render_again_of_isAlone_iff hpasses hpath hr hread' hunits hplaced htargets (fun t ht => ?_) hstar
    (List.forall_mem_map.mpr htakes) (by rwa [hpoints])).mpr fun q hq => ?_
  · exact hshown _ (hfresh t ht).1
  · rw [hpoints, recognised, if_pos (by simpa using ⟨q, hq, rfl⟩)]
    exact standsOut_of_no_opener hopener _ _

/-! ## Units moved with their source -/

/-- Whether a unit in its place has moved with its source. -/
structure Placed.Moved (edits : List Edit) (q q' : Placed) : Prop where
  agrees : q.unit.Agrees q'.unit
  point : q'.point = moved edits q.point
  indent : q'.indent = q.indent

/-- Units that agree show the same. -/
lemma CodeUnit.Agrees.shown {u v : CodeUnit} (h : u.Agrees v) :
    ∃ b, { u with summary := u.summarize } = { { v with summary := v.summarize } with span := b } := by
  obtain ⟨name, shape, parameters, returnType, span, isAsync, called, summary⟩ := u
  obtain ⟨name', shape', parameters', returnType', span', isAsync', called', summary'⟩ := v
  obtain ⟨rfl, rfl, rfl, rfl, rfl, rfl, rfl⟩ := CodeUnit.agrees_iff.mp h
  exact ⟨span, rfl⟩

lemma CodeUnit.Agrees.showsNoCloser_iff {u v : CodeUnit} (h : u.Agrees v) :
    CodeUnit.ShowsNoCloser { u with summary := u.summarize } ↔
      CodeUnit.ShowsNoCloser { v with summary := v.summarize } := by
  obtain ⟨b, hb⟩ := h.shown
  rw [hb]
  rfl

/-- A unit that has moved gets the same comment. -/
lemma Placed.Moved.ownBlock {edits : List Edit} {q q' : Placed} (h : q.Moved edits q') : q'.ownBlock = q.ownBlock := by
  obtain ⟨b, hb⟩ := h.agrees.shown
  rw [Placed.ownBlock, Placed.ownBlock, hb, h.indent]
  rfl

/-- The comments for a place move with the units. -/
lemma stackAt_moved {edits : List Edit} {placed placed' : List Placed}
    (h : List.Forall₂ (Placed.Moved edits) placed placed') (p : Nat) :
    stackAt placed' (moved edits p) = stackAt placed p := by
  induction h with
  | nil => rfl
  | @cons q q' placed placed' hq _ ih =>
    have hsame : q'.point = moved edits p ↔ q.point = p := by
      rw [hq.point, le_antisymm_iff, le_antisymm_iff]
      simp only [← not_lt, moved_lt_moved_iff]
    rw [stackAt, stackAt] at ih ⊢
    by_cases hp : q.point = p
    · simp [hp, hsame.mpr hp, hq.ownBlock, ih]
    · simp [hp, mt hsame.mp hp, ih]

section Grown

variable {source : Text} {edits : List Edit} (hcut : ∀ e ∈ edits, IsCut source e.point)
  (hblock : ∀ e ∈ edits, IsDocBlock e.block)

/-- Between the place of a unit and the unit there is no other place, and the line starts at the
place or the unit does. -/
lemma exists_gap {u : CodeUnit} {p : Nat} (hplain : PlainAt source u.span.start)
    (hpoint : insertionPoint? source u.shape u.span.start = some p) {points : List Nat}
    (halone : isAlone source points u) :
    ∃ before gap c back, source = before ++ (gap ++ c :: back) ∧ bytes before = p ∧
      bytes (before ++ gap) = u.span.start ∧ (isWhite c = false ∧ c ≠ '/') ∧ (gap = [] ∨ EndsLine before) ∧
      ∀ x ∈ points, x ≤ bytes before ∨ bytes before + bytes gap < x := by
  obtain ⟨front, c, back, rfl, hstart, hplain⟩ := hplain
  have hpoints := forall_of_isAlone hstart halone
  obtain ⟨hfront, -, hlines⟩ := splitLastLine_spec front
  have hlong := congrArg bytes hfront
  rw [bytes_append] at hlong
  rw [← hstart, insertionPoint?_append, Option.some.injEq] at hpoint
  cases hmoves : Placement.moves u.shape (splitLastLine front).2 with
  | true =>
    rw [hmoves, if_pos rfl] at hpoint
    refine ⟨(splitLastLine front).1, (splitLastLine front).2, c, back, ?_, hpoint, ?_, hplain, .inr hlines, fun x hx => ?_⟩
    · rw [← List.append_assoc, ← hfront]
    · rw [← hfront, hstart]
    · rcases hpoints x hx with hle | hlt | ⟨hnot, -⟩
      · exact .inl hle
      · omega
      · simp [hmoves] at hnot
  | false =>
    rw [hmoves, if_neg (by simp)] at hpoint
    refine ⟨front, [], c, back, rfl, hpoint, by simpa using hstart, hplain, .inl rfl, fun x hx => ?_⟩
    rw [bytes_nil]
    rcases hpoints x hx with hle | hlt | ⟨-, hown⟩ <;> omega

include hcut in
/-- **Behind a place** the new text goes on as the source does, up to the unit at least. -/
lemma exists_grown_gap {before gap back : Text} {c : Char} (hsource : source = before ++ (gap ++ c :: back))
    (hgap : ∀ x ∈ edits.map Edit.point, x ≤ bytes before ∨ bytes before + bytes gap < x) :
    grown edits (before ++ gap) = grown edits before ++ gap ∧
      ∃ back', grown edits source = grown edits before ++ (gap ++ c :: back') := by
  have hplain : grown edits (before ++ gap) = grown edits before ++ gap :=
    grown_append_plain fun e he => hgap _ (List.mem_map_of_mem he)
  have hsource' : source = (before ++ gap) ++ c :: back := by rw [hsource, List.append_assoc]
  have hnext : grown edits (before ++ gap ++ [c]) =
      grown edits (before ++ gap) ++ [c] ++ addedAt edits (bytes (before ++ gap) + bytes [c]) :=
    grown_append (by simp) (by simpa using point_of_cut hsource' hcut)
  obtain ⟨rest, hrest⟩ := grown_prefix edits (before ++ gap ++ [c]) back
  refine ⟨hplain, addedAt edits (bytes (before ++ gap) + bytes [c]) ++ rest, ?_⟩
  rw [hsource', List.append_cons, ← hrest, hnext, hplain]
  simp

/-- Indentation ends in front of what is plain. -/
lemma takeWhile_isIndent_append {gap back : Text} {c : Char} (hwhite : isWhite c = false) :
    (gap ++ c :: back).takeWhile Placement.isIndent = gap.takeWhile Placement.isIndent := by
  have hc : Placement.isIndent c = false := by
    cases h : Placement.isIndent c with
    | false => rfl
    | true =>
      have hspace : c = ' ' ∨ c = '\t' := by simpa [Placement.isIndent] using h
      rcases hspace with rfl | rfl <;> revert hwhite <;> decide
  induction gap with
  | nil => simp [hc]
  | cons d gap ih =>
    rw [List.cons_append, List.takeWhile_cons, List.takeWhile_cons, ih]

include hcut hblock in
/-- **A unit in its place** is found at the place that this moves to, with its indentation. -/
lemma of?_grown {q : Placed} {v : CodeUnit} (hof : Placed.of? source q.unit = some q)
    (hpoint : q.point ∈ edits.map Edit.point) (hplain : PlainAt source q.unit.span.start)
    (halone : isAlone source (edits.map Edit.point) q.unit) (hshape : v.shape = q.unit.shape)
    (hstart : v.span.start = moved edits q.unit.span.start) :
    Placed.of? (grown edits source) v = some ⟨v, moved edits q.point, q.indent⟩ ∧
      PlainAt (grown edits source) v.span.start := by
  obtain ⟨-, hplace, hindent⟩ := Placed.of?_eq_some_iff.mp hof
  obtain ⟨before, gap, c, back, hsource, hbefore, hunit, hc, hline, hgap⟩ := exists_gap hplain hplace halone
  obtain ⟨hgrown, back', hback'⟩ := exists_grown_gap hcut hsource hgap
  have hsource' : source = (before ++ gap) ++ c :: back := by rw [hsource, List.append_assoc]
  have hlong := bytes_grown hsource hcut
  rw [hbefore] at hlong
  refine ⟨Placed.of?_eq_some_iff.mpr ⟨rfl, ?_, ?_⟩, grown edits (before ++ gap), c, back', ?_, ?_, hc⟩
  · -- the place
    obtain ⟨hagain, -⟩ := insertionPoint?_grown hcut hblock hsource' hunit
    have hsame := placeAgain_of_isAlone (isCut_iff.mpr ⟨_, _, hsource', hunit⟩) halone
    rw [hplace, Option.some.injEq] at hsame
    rw [hshape, hstart, hagain, hsame]
  · -- the indentation
    have hends := (closes_grown hblock (hbefore ▸ hpoint)).endsLine
    rw [hsource, ← hbefore, indentationAt?, splitAt?_append, Option.some.injEq, takeWhile_isIndent_append hc.1] at hindent
    rw [indentationAt?, hback', ← hlong, splitAt?_append, Option.some.injEq, takeWhile_isIndent_append hc.1,
      if_pos (endsLine_iff.mp hends), ← hindent]
    rcases hline with rfl | hends'
    · simp
    · rw [if_pos (endsLine_iff.mp hends')]
  · rw [hgrown, hback', List.append_assoc]
  · rw [bytes_grown hsource' hcut, hunit, hstart]

end Grown

/-! ## Runs that overwrite comments -/

section Overwriting

variable {source : Text} {units units' : List CodeUnit} {placed placed' : List Placed}

/-- The units of the new text in their places. -/
lemma exists_placed_grown {edits : List Edit} (hcut : ∀ e ∈ edits, IsCut source e.point)
    (hblock : ∀ e ∈ edits, IsDocBlock e.block) (hplaced : units.map (Placed.of? source) = placed.map some)
    (hpoints : ∀ q ∈ placed, q.point ∈ edits.map Edit.point) (hplain : ∀ u ∈ units, PlainAt source u.span.start)
    (halone : ∀ u ∈ units, isAlone source (edits.map Edit.point) u) (hsame : SameUnits edits units units')
    (hagree : List.Forall₂ CodeUnit.Agrees units units') :
    ∃ placed', units'.map (Placed.of? (grown edits source)) = placed'.map some ∧
      List.Forall₂ (Placed.Moved edits) placed placed' ∧ ∀ v ∈ units', PlainAt (grown edits source) v.span.start := by
  rw [sameUnits_iff] at hsame
  induction hagree generalizing placed with
  | nil =>
    obtain rfl : placed = [] := by simpa using hplaced.symm
    exact ⟨[], rfl, .nil, by simp⟩
  | @cons u v units units' huv _ ih =>
    obtain ⟨⟨hshape, hstart⟩, hbehind⟩ := List.forall₂_cons.mp hsame
    cases placed with
    | nil => simp at hplaced
    | cons q placed =>
      obtain ⟨hof, hothers⟩ : Placed.of? source u = some q ∧ units.map (Placed.of? source) = placed.map some := by
        simpa using hplaced
      obtain rfl : q.unit = u := (Placed.of?_eq_some_iff.mp hof).1
      obtain ⟨hof', hplain'⟩ := of?_grown hcut hblock hof (hpoints q (by simp)) (hplain _ (by simp)) (halone _ (by simp))
        hshape hstart
      obtain ⟨placed', hplaced', hmoved, hplains⟩ := ih hothers (fun q hq => hpoints q (by simp [hq]))
        (fun u hu => hplain u (by simp [hu])) (fun u hu => halone u (by simp [hu])) hbehind
      refine ⟨⟨v, moved edits q.point, q.indent⟩ :: placed', by rw [List.map_cons, hof', hplaced', List.map_cons],
        .cons ⟨huv, rfl, rfl⟩ hmoved, ?_⟩
      intro w hw
      rcases List.mem_cons.mp hw with rfl | hw
      · exact hplain'
      · exact hplains w hw

/-- **Where the comments of a first run stand again**: in the new text the comments for a place
stand right above it exactly if the place is settled in the source, back to the last place in front
of it.

**Proof sketch.** The blocks of the first run at a place are the comments for it (`stackAt_moved`),
and what stands in front of them closes, but for the text of the source since the last place
(`grown_eq`). -/
lemma stands_grown_iff {edits : List Edit} (hcut : ∀ e ∈ edits, IsCut source e.point)
    (hblock : ∀ e ∈ edits, IsDocBlock e.block) (hadded : ∀ p, addedAt edits p = stackAt placed p)
    (hmoved : List.Forall₂ (Placed.Moved edits) placed placed') {q q' : Placed} (hq : q.Moved edits q')
    (hpoint : IsCut source q.point) :
    Stands (grown edits source) placed' q' ↔ Settled q.indent (since source (edits.map Edit.point) q.point) := by
  obtain ⟨before, back, hsource, hbefore⟩ := isCut_iff.mp hpoint
  obtain ⟨prior, hgrown, hprior, -⟩ := grown_eq hcut hblock hsource
  obtain ⟨rest, hrest⟩ := grown_prefix edits before back
  rw [← hsource] at hrest
  have hlong := bytes_grown hsource hcut
  have hstack : stackAt placed' q'.point = addedAt edits q.point := by rw [hq.point, stackAt_moved hmoved, hadded]
  rw [hbefore] at hgrown hlong
  constructor
  · rintro ⟨⟨front, behind, hfront, hbytes, hsettled⟩, -⟩
    rw [hstack, hq.point] at hbytes
    rw [hstack, ← hrest, hgrown] at hfront
    rw [hgrown] at hlong
    obtain ⟨hsame, -⟩ := append_inj_of_bytes hfront (hlong.trans hbytes.symm)
    rw [hq.indent, ← List.append_cancel_right hsame, settled_append_iff hprior] at hsettled
    exact hsettled
  · intro hsettled
    refine ⟨⟨prior ++ since source (edits.map Edit.point) q.point, rest, ?_, ?_, ?_⟩, fun x hx hlt => ?_⟩
    · rw [hstack, ← hgrown, hrest]
    · rw [hstack, ← hgrown, hlong, hq.point]
    · rw [hq.indent, settled_append_iff hprior]
      exact hsettled
    · -- a place in front ends where its unit does, in front of the comments
      obtain ⟨y, -, hy⟩ := exists_mem_of_forall₂ hmoved hx
      rw [hy.point, hq.point] at hlt
      have hfront := moved_le_movedEnd edits ((moved_lt_moved_iff edits).mp hlt)
      rw [hstack, hy.point, hq.point, moved_eq_movedEnd_add edits q.point]
      omega

end Overwriting

/-- **Texts that stay the same behind a first run**: suppose that no unit of a source has a comment,
and that the units are alone on their lines, at places that take comments and lie inside no text
that a unit shows. Then a run that overwrites comments gives each unit one, and a second such run
leaves the new text as it is exactly if each place is settled: nothing is left open in the text
between it and the last place in front of it, no star ends that text, and the place starts a line
or stands behind something other than blanks.

**Proof sketch.** The blocks of the first run are put in at the places of the units
(`exists_rendered_bare`), so the second run finds the units again (`exists_units_grown`), each in
its place (`exists_placed_grown`). It leaves the text as it is exactly if the comments for each of
these stand there (`renewed_stackAt_eq_iff`, `stands_grown_iff`). -/
lemma render_overwriting_again_of_isAlone_iff {s : Session} {path source : Text} {d : Dialect} {units : List CodeUnit}
    {placed : List Placed} (hpasses : PassesComments (syntaxTree d)) (hpath : Path.dialect? path = some d)
    (hread : Disk.read s.disk path = .ok source) (hunits : extract d source = .ok units) (hne : units ≠ [])
    (hplaced : units.map (Placed.of? source) = placed.map some)
    (hbare : ∀ q ∈ placed, documentedAt source q.point = false)
    (hshown : ∀ u ∈ units, CodeUnit.ShowsNoCloser { u with summary := u.summarize })
    (hplain : ∀ u ∈ units, u.startsPlain source)
    (htakes : ∀ q ∈ placed, takesComment source (syntaxTree d source) q.point)
    (htexts : ∀ x ∈ foundIn (syntaxTree d source), ∀ n ∈ x.nodes, ∀ q ∈ placed, q.point ≤ n.start ∨ n.stop ≤ q.point)
    (halone : ∀ u ∈ units, isAlone source (placed.map Placed.point) u) :
    ∃ r, (s.render none true path).1 = .ok (.rendered r) ∧
      ∀ s' : Session, Disk.read s'.disk path = .ok r.text →
        ∃ r', (s'.render none true path).1 = .ok (.rendered r') ∧
          (r'.text = r.text ↔ ∀ q ∈ placed, Settled q.indent (since source (placed.map Placed.point) q.point)) := by
  obtain ⟨r, hr, rfl, htext⟩ := exists_rendered_bare true hpath hread hunits hne hplaced hbare
  refine ⟨r, hr, fun s' hread' => ?_⟩
  have hfresh := areFresh_toTarget hplaced
  have hshown' : ∀ t ∈ placed.map Placed.toTarget,
      CodeUnit.ShowsNoCloser { t.unit with summary := t.unit.summarize } := fun t ht => hshown _ (hfresh t ht).1
  have hpoints : (editsOf (placed.map Placed.toTarget)).map Edit.point = placed.map Placed.point := by
    simp only [editsOf, List.map_map]
    rfl
  have hplain := fun u hu => plainAt_of_startsPlain (hplain u hu)
  obtain ⟨units', hunits', hsame, hagree⟩ := exists_units_grown hpasses hunits hfresh hshown'
    (List.forall_mem_map.mpr htakes)
  have hagree := hagree.mpr fun x hx n hn => List.forall_mem_map.mpr (List.forall_mem_map.mpr (htexts x hx n hn))
  obtain ⟨placed', hplaced', hmoved, hplain'⟩ := exists_placed_grown hfresh.isCut (hfresh.isDocBlock hshown') hplaced
    (fun q hq => hpoints ▸ List.mem_map_of_mem hq) hplain (by rwa [hpoints]) hsame hagree
  have hne' : units' ≠ [] := by
    rintro rfl
    exact hne (List.forall₂_nil_right_iff.mp hagree)
  have hshownAgain := (forall_mem_iff_of_forall₂ (hagree.imp fun u v huv => huv.showsNoCloser_iff)).mp hshown
  rw [htext] at hread' ⊢
  obtain ⟨r', places, parts, rest, hr', hascend, hplaces, hparts, htext'⟩ :=
    exists_rendered_renewed hpath hread' hunits' hne' hplaced'
  refine ⟨r', hr', ?_⟩
  rw [htext', renewed_stackAt_eq_iff hplaced' hshownAgain hplain' hascend hplaces hparts, ← hpoints]
  have hown : (placed.map Placed.toTarget).map Target.toPlaced = placed := by
    rw [List.map_map]
    exact List.map_id placed
  have hcut : ∀ q ∈ placed, IsCut r.original q.point := fun q hq =>
    hfresh.isCut _ (List.mem_map_of_mem (List.mem_map_of_mem hq))
  have hboth := (List.forall₂_and_left _ _).mpr ⟨hcut, hmoved⟩
  refine (forall_mem_iff_of_forall₂ (hboth.imp fun q q' h => ?_)).symm
  obtain ⟨hq, hqq'⟩ := h
  exact (stands_grown_iff hfresh.isCut (hfresh.isDocBlock hshown') (addedAt_editsOf hown) hmoved hqq' hq).symm

/-- A function, a method and an arrow function, each on a line of its own. -/
example :
    let source := "function f() {}\nclass A \x7b\n  m() {}\n\x7d\nconst g = () => 1\n".toList
    let tree := syntaxTree .javaScript source
    (∀ p ∈ [0, 26, 37], takesComment source tree p) ∧
      (∀ x ∈ foundIn tree, ∀ n ∈ x.nodes, ∀ p ∈ [0, 26, 37], p ≤ n.start ∨ n.stop ≤ p) ∧
      (unitsIn source tree).map (·.name) = ["f".toList, "m".toList, "g".toList] ∧
      (unitsIn source tree).map (Option.map Placed.point ∘ Placed.of? source) = [some 0, some 26, some 37] ∧
      ∀ u ∈ unitsIn source tree, isAlone source [0, 26, 37] u := by
  decide +kernel

end DocBlocks
