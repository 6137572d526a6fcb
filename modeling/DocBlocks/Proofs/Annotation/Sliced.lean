import DocBlocks.Proofs.Annotation.Rewritten
import DocBlocks.Proofs.Comment.Sliced

/-!
# Placing and splicing, by slices

All that happens to a source between the search for its units and its new text works on byte
offsets. Places and indentations are found by slices, the comments above a place by slices again,
and the edits go into a text that grows and shrinks, at offsets that move along. If the source can
be cut where the units start, none of this fails: each slice is in the source and cuts no character,
each place is where it can be, and no offset is negative.

## Main definitions

* `slicedPoint?`, `slicedIndentation?`: the place of a comment and the indentation there, slice by
  slice.
* `slicedTargets?`: the targets among units, slice by slice.

## Main results

* `slicedPoint?_eq`, `slicedIndentation?_eq`: no slice fails where a source can be cut.
* `exists_targets_and_splices`: nothing fails from the units of a source to its new text.
* `Plan.isSome_splice?`: the edits for a file can be made.
-/

namespace DocBlocks

open Text Comment Splice

/-! ## Places and indentations -/

/-- The place for the comment of a unit, slice by slice. -/
def slicedPoint? (source : Text) (shape : CodeUnit.Shape) (start : Nat) : Option Nat := do
  let line ← source.lineStart? start
  let front ← source.slice? line start
  return if Placement.moves shape front then line else start

/-- The indentation of a comment at a place, slice by slice. -/
def slicedIndentation? (source : Text) (point : Nat) : Option Text := do
  let line ← source.lineStart? point
  if line = point then
    let rest ← source.slice? point source.bytes
    let code : Text := rest.dropWhile Placement.isIndent
    rest.slice? 0 (← less? rest.bytes code.bytes)
  else return []

variable {source : Text}

/-- Where a source cannot be cut, there is no start of a line. -/
lemma lineStart?_eq_none {n : Nat} (h : source.splitAt? n = none) : source.lineStart? n = none := by
  rw [lineStart?, slice?_zero, h]
  rfl

/-- **The place of a comment** is found by slices that succeed where the source can be cut. -/
lemma slicedPoint?_eq (shape : CodeUnit.Shape) (start : Nat) :
    slicedPoint? source shape start = insertionPoint? source shape start := by
  rw [slicedPoint?, insertionPoint?]
  cases hsplit : source.splitAt? start with
  | none =>
    rw [lineStart?_eq_none hsplit]
    rfl
  | some found =>
    obtain ⟨before, rest⟩ := found
    obtain ⟨rfl, rfl⟩ := splitAt?_eq_some_iff.mp hsplit
    obtain ⟨hbefore, -, -⟩ := splitLastLine_spec before
    have hfront : (before ++ rest).slice? (bytes (splitLastLine before).1) (bytes before) =
        some (splitLastLine before).2 := by
      apply slice?_eq_some_iff.mpr
      refine ⟨(splitLastLine before).1, rest, ?_, rfl, ?_⟩
      · rw [← List.append_assoc, ← hbefore]
      · rw [← bytes_append, ← hbefore]
    rw [lineStart?_append]
    simp only [Option.bind_eq_bind, Option.bind_some, hfront]
    rfl

/-- A place is the start of its line exactly if nothing stands in front of it on the line. -/
lemma bytes_splitLastLine_eq_iff {before : Text} :
    bytes (splitLastLine before).1 = bytes before ↔ (splitLastLine before).2 = [] := by
  obtain ⟨hbefore, -, -⟩ := splitLastLine_spec before
  have hbytes := congrArg bytes hbefore
  rw [bytes_append] at hbytes
  rw [← bytes_eq_zero_iff]
  omega

/-- **The indentation of a comment** is found by slices that succeed where the source can be cut. -/
lemma slicedIndentation?_eq (point : Nat) : slicedIndentation? source point = indentationAt? source point := by
  rw [slicedIndentation?, indentationAt?]
  cases hsplit : source.splitAt? point with
  | none =>
    rw [lineStart?_eq_none hsplit]
    rfl
  | some found =>
    obtain ⟨before, rest⟩ := found
    obtain ⟨rfl, rfl⟩ := splitAt?_eq_some_iff.mp hsplit
    rw [lineStart?_append]
    simp only [Option.bind_eq_bind, Option.bind_some, bytes_splitLastLine_eq_iff]
    by_cases hline : (splitLastLine before).2 = []
    · have hindent := slice?_front (rest.takeWhile Placement.isIndent) (rest.dropWhile Placement.isIndent)
      have hwidth := less?_append (rest.takeWhile Placement.isIndent) (rest.dropWhile Placement.isIndent)
      rw [List.takeWhile_append_dropWhile] at hindent hwidth
      rw [if_pos hline, if_pos hline, slice?_back]
      simp only [Option.bind_some, hwidth, hindent]
    · rw [if_neg hline, if_neg hline]
      rfl

/-! ## Targets -/

/-- A unit with the place of its comment, slice by slice. -/
def slicedPlaced? (source : Text) (u : CodeUnit) : Option Placed := do
  let point ← slicedPoint? source u.shape u.span.start
  return ⟨u, point, ← slicedIndentation? source point⟩

/-- The targets among placed units, slice by slice. `points` are the places of all units, and
`claimed` those whose standing comments are replaced already. -/
def slicedAmong? (source : Text) (overwrite : Bool) (points : List Nat) : List Nat → List Placed → Option (List Target)
  | _, [] => some []
  | claimed, p :: rest => do
    match ← slicedRun? source p.point (points.count p.point) with
    | none => return { p with replaceFrom := p.point } :: (← slicedAmong? source overwrite points claimed rest)
    | some run =>
      if overwrite then
        return { p with replaceFrom := if claimed.contains p.point then p.point else run.start } ::
          (← slicedAmong? source overwrite points (p.point :: claimed) rest)
      else slicedAmong? source overwrite points claimed rest

/-- The targets among the units of a source, slice by slice. -/
def slicedTargets? (source : Text) (overwrite : Bool) (units : List CodeUnit) : Option (List Target) := do
  let placed ← units.mapM (slicedPlaced? source)
  slicedAmong? source overwrite (placed.map Placed.point) [] placed

lemma slicedPlaced?_eq (u : CodeUnit) : slicedPlaced? source u = Placed.of? source u := by
  simp only [slicedPlaced?, Placed.of?, slicedPoint?_eq, slicedIndentation?_eq]

/-- Among placed units no slice fails. -/
lemma slicedAmong?_eq (overwrite : Bool) (points claimed : List Nat) (placed : List Placed) :
    slicedAmong? source overwrite points claimed placed = some (targetsAmong source overwrite points claimed placed) := by
  induction placed generalizing claimed with
  | nil => rfl
  | cons p placed ih =>
    rw [slicedAmong?, targetsAmong, slicedRun?_eq, standing?]
    simp only [Option.bind_eq_bind, Option.bind_some, ih]
    cases precedingRun? source p.point (points.count p.point) with
    | none => rfl
    | some run => cases overwrite <;> rfl

/-- **The targets** are found by slices that succeed if the source can be cut where the units
start. -/
lemma slicedTargets?_eq (overwrite : Bool) (units : List CodeUnit) :
    slicedTargets? source overwrite units = targets? source overwrite units := by
  have hplaced : slicedPlaced? source = Placed.of? source := funext slicedPlaced?_eq
  rw [slicedTargets?, targets?, hplaced]
  simp only [slicedAmong?_eq]
  rfl

/-! ## The new text -/

/-- The edits that put blocks at the places of targets. -/
def editsWith (targets : List Target) (blocks : List Text) : List Edit :=
  List.zipWith (fun t block => ⟨t.unit.name, t.point, t.replaceFrom, block⟩) targets blocks

/-- The edits for targets can be made, whatever their blocks are. -/
lemma isSome_splice?_editsWith {overwrite : Bool} {points claimed : List Nat} {placed : List Placed}
    (hplaced : ∀ q ∈ placed, IsCut source q.point) (blocks : List Text) :
    (splice? source (editsWith (targetsAmong source overwrite points claimed placed) blocks)).isSome := by
  apply (splice?_text source _).2.mpr
  apply fits_of_mem_removed (isCut_iff.mpr ⟨[], source, rfl, rfl⟩)
  intro e he
  rw [mem_sortEdits, editsWith, ← List.map_uncurry_zip_eq_zipWith] at he
  obtain ⟨⟨t, block⟩, hmem, rfl⟩ := List.mem_map.mp he
  obtain ⟨ht, -⟩ := List.of_mem_zip hmem
  have hpoint : IsCut source t.point := by
    have htarget := List.mem_map_of_mem (f := Target.toPlaced) ht
    rw [map_toPlaced_targetsAmong, List.mem_filter] at htarget
    exact hplaced t.toPlaced htarget.1
  refine ⟨hpoint, ?_⟩
  rcases replaceFrom_of_mem_targetsAmong ht with hfrom | ⟨run, hrun, hfrom⟩
  · show IsCut source t.replaceFrom
    rw [hfrom]
    exact hpoint
  · show IsCut source t.replaceFrom
    rw [hfrom]
    exact (isCut_of_standing? hrun).2

/-- **Nothing fails between units and the new text.** Suppose the source can be cut where the units
start. Then each unit has a place and an indentation there, the comments above any place can be
looked for, the targets can be determined, and the edits can be made whatever their blocks are. All
slices and numbers of bytes that this takes are answers of operations that fail if a slice leaves
the source or cuts a character, if bounds are in the wrong order, or if an offset is negative; so
none of this happens.

**Proof sketch.** The searches slice at cuts only (`slicedPoint?_eq`, `slicedIndentation?_eq`,
`slicedRun?_eq`). The edits replace ranges between cuts (`isCut_of_standing?`), which is all a
splice needs (`splice?_text`). -/
theorem exists_targets_and_splices {units : List CodeUnit} (hunits : ∀ u ∈ units, IsCut source u.span.start)
    (overwrite : Bool) :
    (∀ u ∈ units, ∃ point indent, slicedPoint? source u.shape u.span.start = some point ∧
      slicedIndentation? source point = some indent) ∧
    (∀ position count, (slicedBlock? source position).isSome ∧ (slicedRun? source position count).isSome) ∧
    ∃ targets, slicedTargets? source overwrite units = some targets ∧
      targets? source overwrite units = some targets ∧
      ∀ blocks, (splice? source (editsWith targets blocks)).isSome := by
  obtain ⟨placed, hplaced, hcut⟩ := exists_placed_of_isCut hunits
  refine ⟨fun u hu => ?_, fun position count => ?_, ?_⟩
  · obtain ⟨q, -, hq⟩ : ∃ q ∈ placed, some q = Placed.of? source u := by
      have hmem := List.mem_map_of_mem (f := Placed.of? source) hu
      rw [hplaced] at hmem
      exact List.mem_map.mp hmem
    obtain ⟨-, hpoint, hindent⟩ := Placed.of?_eq_some_iff.mp hq.symm
    exact ⟨q.point, q.indent, by rw [slicedPoint?_eq, hpoint], by rw [slicedIndentation?_eq, hindent]⟩
  · rw [slicedBlock?_eq, slicedRun?_eq]
    exact ⟨rfl, rfl⟩
  · have htargets := targets?_of_placed hplaced overwrite
    exact ⟨_, by rw [slicedTargets?_eq, htargets], htargets, isSome_splice?_editsWith hcut⟩

/-- A character of several bytes in front of the unit, and a null character in it. -/
theorem exists_targets_and_splices_wide :
    let source := "/** é */\nconst w = () => '\x00'".toList
    let u : CodeUnit := ⟨"w".toList, .arrow, [], none, ⟨20, 29⟩, false, [], []⟩
    (∀ v ∈ [u], IsCut source v.span.start) ∧
      slicedTargets? source true [u] = some [⟨⟨u, 10, []⟩, 0⟩] ∧
      ∀ block, (splice? source [⟨"w".toList, 10, 0, block⟩]).isSome := by
  intro source u
  have hunits : ∀ v ∈ [u], IsCut source v.span.start := by decide +kernel
  obtain ⟨-, -, targets, hsliced, -, hsplice⟩ := exists_targets_and_splices hunits true
  have htargets : slicedTargets? source true [u] = some [⟨⟨u, 10, []⟩, 0⟩] := by decide +kernel
  obtain rfl := Option.some.inj (htargets.symm.trans hsliced)
  exact ⟨hunits, htargets, fun block => hsplice [block]⟩

/-! ## Runs -/

/-- Where the plan for a file is to document it, the edits can be made, whatever their blocks
are. -/
lemma Plan.isSome_splice? {disk : Entry} {path extension source : Text} {overwrite : Bool} {targets : List Target}
    (h : Plan.ofFile disk path overwrite = .ok (.document extension source targets)) (blocks : List Text) :
    (splice? source (editsWith targets blocks)).isSome := by
  obtain ⟨d, source', -, -, hplan⟩ := Plan.ofFile_eq_ok h (by simp)
  obtain ⟨rfl, units, hunits, -, htargets⟩ := Plan.ofSource_eq_document hplan
  obtain ⟨placed, hplaced, hcut⟩ := exists_placed_of_extract hunits
  rw [targets?_of_placed hplaced] at htargets
  obtain rfl := Option.some.inj htargets
  exact isSome_splice?_editsWith hcut blocks

end DocBlocks
