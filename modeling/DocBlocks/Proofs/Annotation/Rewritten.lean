import DocBlocks.Proofs.Annotation.Planned
import DocBlocks.Proofs.Comment.Run
import DocBlocks.Proofs.Extraction.Accepted
import DocBlocks.Proofs.Splice.Parts
import Mathlib.Data.Finset.Sort

/-!
# The new text of a source

The plan for a source is made unit by unit, in the order of the source; the edits are made in the
order of their places. The new text can be said without both orders. A place is targeted or not,
with all the units that have their place there. At each targeted place the comments that stand above
it give way to the comments of the units there, and all else stays.

## Main definitions

* `blocksAt`: the comments for a place.

## Main results

* `render_parts`: the new text of an accepted source.
-/

namespace DocBlocks

open Text Comment Splice

/-! ## Targeted places -/

section Targets

variable {source : Text} {overwrite : Bool} {points : List Nat}

/-- The places of the targets are the targeted places. -/
lemma mem_map_point_iff {placed : List Placed} {targets : List Target}
    (h : targets.map Target.toPlaced = placed.filter fun q => isTargeted source overwrite points q.point) (p : Nat) :
    (p ∈ targets.map fun t => t.point) ↔ p ∈ placed.map Placed.point ∧ isTargeted source overwrite points p := by
  have hmap : (targets.map fun t => t.point) = (targets.map Target.toPlaced).map Placed.point := by
    rw [List.map_map]
    rfl
  rw [hmap, h]
  simp only [List.mem_map, List.mem_filter]
  constructor
  · rintro ⟨q, ⟨hq, htargeted⟩, rfl⟩
    exact ⟨⟨q, hq, rfl⟩, htargeted⟩
  · rintro ⟨⟨q, hq, rfl⟩, htargeted⟩
    exact ⟨q, ⟨hq, htargeted⟩, rfl⟩

/-- The comments above a place start at or in front of it, where the source can be cut. -/
lemma isCut_of_standing? {p : Nat} {run : Span} (h : standing? source points p = some run) :
    run.start ≤ p ∧ IsCut source run.start := by
  rw [standing?, precedingRun?] at h
  split at h
  · rename_i before rest hsplit
    obtain ⟨rfl, rfl⟩ := splitAt?_eq_some_iff.mp hsplit
    obtain ⟨top, htop, rfl⟩ := Option.map_eq_some_iff.mp h
    generalize points.count (bytes before) - 1 = n
    obtain ⟨indent, comment, blanks, rfl, -⟩ := above?_found htop
    obtain ⟨back, hback⟩ := (blank_or_mem_blocksAbove n top).1
    refine ⟨?_, isCut_iff.mpr ⟨aboveRun n top, back ++ (indent ++ comment ++ blanks ++ rest), ?_, rfl⟩⟩
    · have := congrArg bytes hback
      simp only [bytes_append] at this ⊢
      omega
    · conv_lhs => rw [← hback]
      simp only [List.append_assoc]
  · cases h

variable (points) in
lemma topAt_le (p : Nat) : topAt source points p ≤ p := by
  rw [topAt]
  cases hrun : standing? source points p with
  | none => exact le_rfl
  | some run => exact (isCut_of_standing? hrun).1

lemma isCut_topAt {p : Nat} (h : IsCut source p) : IsCut source (topAt source points p) := by
  rw [topAt]
  cases hrun : standing? source points p with
  | none => exact h
  | some run => exact (isCut_of_standing? hrun).2

end Targets

/-! ## Comments for a place -/

/-- The comments for a place, each with a line feed, in the order of their targets. -/
def blocksAt (targets : List Target) (blocks : List Text) (p : Nat) : Text :=
  ((targets.zip blocks).filter (·.1.point = p)).flatMap fun x => x.2 ++ ['\n']

/-- Each edit is made from a target and a comment. -/
lemma Session.editsFor_eq_zipWith (g : Option Generator) (path extension source : Text) (total : Nat)
    (targets : List Target) (index : Nat) (s : Session) :
    (s.editsFor g path extension source total index targets).1 =
      List.zipWith (fun t block => ⟨t.unit.name, t.point, t.replaceFrom, block⟩) targets
        ((s.editsFor g path extension source total index targets).1.map Edit.block) := by
  induction targets generalizing index s with
  | nil => rfl
  | cons t ts ih =>
    simp only [Session.editsFor, Session.editFor, List.map_cons, List.zipWith_cons_cons]
    exact congrArg _ (ih _ _)

/-- What edits put in at a place are the comments for it. -/
lemma addedAt_editsFor (g : Option Generator) (path extension source : Text) (targets : List Target) (s : Session)
    (p : Nat) :
    addedAt (s.editsFor g path extension source targets.length 1 targets).1 p =
      blocksAt targets ((s.editsFor g path extension source targets.length 1 targets).1.map Edit.block) p := by
  conv_lhs => rw [s.editsFor_eq_zipWith]
  rw [addedAt, blocksAt, ← List.map_uncurry_zip_eq_zipWith, List.filter_map, List.flatMap_map]
  rfl

/-- What edits at a place replace is what their targets do. -/
lemma map_replaceFrom_editsFor (g : Option Generator) (path extension source : Text) (targets : List Target)
    (s : Session) (p : Nat) :
    ((s.editsFor g path extension source targets.length 1 targets).1.filter (·.point = p)).map Edit.replaceFrom =
      (targets.filter (·.point = p)).map (·.replaceFrom) := by
  have h := congrArg (fun l => (l.filter fun x : Nat × Nat => x.1 = p).map Prod.snd)
    (s.map_editsFor g path extension source targets.length targets 1)
  simp only [List.filter_map, List.map_map] at h
  exact h

/-- Each edit goes to the place of a target. -/
lemma point_mem_of_mem_editsFor {g : Option Generator} {path extension source : Text} {targets : List Target}
    {s : Session} {e : Edit} (he : e ∈ (s.editsFor g path extension source targets.length 1 targets).1) :
    e.point ∈ targets.map fun t => t.point := by
  have hpair := List.mem_map_of_mem (f := fun e : Edit => (e.point, e.replaceFrom)) he
  rw [s.map_editsFor] at hpair
  obtain ⟨t, ht, heq⟩ := List.mem_map.mp hpair
  exact List.mem_map.mpr ⟨t, ht, (Prod.mk.inj heq).1⟩

/-- **What the edits at a targeted place replace**: the first of them all that stands above the
place, the others nothing. -/
lemma replaceFrom_editsFor {source : Text} {overwrite : Bool} {points : List Nat} {placed : List Placed}
    {targets : List Target} (htargets : targetsAmong source overwrite points [] placed = targets)
    (g : Option Generator) (path extension : Text) (s : Session) {p : Nat} (hp : p ∈ targets.map fun t => t.point) :
    ∃ k, ((s.editsFor g path extension source targets.length 1 targets).1.filter (·.point = p)).map Edit.replaceFrom =
      topAt source points p :: List.replicate k p := by
  rw [map_replaceFrom_editsFor]
  have hfrom := replaceFrom_targetsAmong source overwrite points p [] placed
  rw [htargets] at hfrom
  refine hfrom.resolve_left fun hnone => ?_
  obtain ⟨t, ht, hpoint⟩ := List.mem_map.mp hp
  have hnot := List.filter_eq_nil_iff.mp (List.map_eq_nil_iff.mp hnone) t ht
  simp [hpoint] at hnot

/-! ## The new text -/

/-- Places can be brought into ascending order, each once. -/
lemma exists_ascending (points : List Nat) :
    ∃ places : List Nat, places.Pairwise (· < ·) ∧ ∀ p, p ∈ places ↔ p ∈ points :=
  ⟨points.toFinset.sort, (Finset.sortedLT_sort _).pairwise, by simp⟩

/-- Each unit has its place, where the source can be cut, if the source can be cut where the units
start. -/
lemma exists_placed_of_isCut {source : Text} {units : List CodeUnit} (h : ∀ u ∈ units, IsCut source u.span.start) :
    ∃ placed : List Placed, units.map (Placed.of? source) = placed.map some ∧ ∀ q ∈ placed, IsCut source q.point := by
  have hall : (units.mapM (Placed.of? source)).isSome := by
    refine isSome_mapM_iff.mpr fun u hu => ?_
    obtain ⟨before, back, rfl, hstart⟩ := isCut_iff.mp (h u hu)
    have hpoint := insertionPoint?_append u.shape before back
    rw [hstart] at hpoint
    obtain ⟨q, hq, -⟩ := exists_placed hpoint
    rw [hq]
    rfl
  obtain ⟨placed, hplaced⟩ := Option.isSome_iff_exists.mp hall
  refine ⟨placed, mapM_eq_some_iff.mp hplaced, fun q hq => ?_⟩
  obtain ⟨u, -, hu⟩ := exists_mem_of_mapM hplaced hq
  exact isCut_of_insertionPoint? (Placed.of?_eq_some_iff.mp hu).2.1

/-- Each unit of an accepted source has its place, where the source can be cut. -/
lemma exists_placed_of_extract {d : Dialect} {source : Text} {units : List CodeUnit}
    (h : extract d source = .ok units) :
    ∃ placed : List Placed, units.map (Placed.of? source) = placed.map some ∧ ∀ q ∈ placed, IsCut source q.point :=
  exists_placed_of_isCut (isCut_of_extract h)

/-- The targets among units that have their places. -/
lemma targets?_of_placed {source : Text} {units : List CodeUnit} {placed : List Placed}
    (h : units.map (Placed.of? source) = placed.map some) (overwrite : Bool) :
    targets? source overwrite units = some (targetsAmong source overwrite (placed.map Placed.point) [] placed) := by
  simp [targets?, mapM_eq_some_iff.mpr h]

/-- What rendering an accepted source comes to. -/
lemma Session.render_of_targets? {s : Session} {overwrite : Bool} {path source : Text} {d : Dialect}
    {units : List CodeUnit} {targets : List Target} (g : Option Generator) (hpath : Path.dialect? path = some d)
    (hread : Disk.read s.disk path = .ok source) (hunits : extract d source = .ok units)
    (htargets : targets? source overwrite units = some targets) :
    (s.render g overwrite path).1 =
      if units = [] then .ok (.skipped .noUnits)
      else if targets = [] then .ok (.skipped .documented)
      else
        match splice? source (s.editsFor g path ((Path.extension? path).getD []) source targets.length 1 targets).1 with
        | none => .error .misplaced
        | some x => .ok (.rendered ⟨path, source, x.text, x.report⟩) := by
  rw [Session.render, Plan.ofFile, hpath]
  simp only [hread, Plan.ofSource, hunits]
  cases units with
  | nil => rfl
  | cons u units =>
    rw [if_neg (List.cons_ne_nil u units)]
    simp only [htargets]
    cases targets with
    | nil => rfl
    | cons t targets =>
      rw [if_neg (List.cons_ne_nil t targets)]
      simp only
      cases splice? source
        (s.editsFor g path ((Path.extension? path).getD []) source (t :: targets).length 1 (t :: targets)).1 <;> rfl

/-- What rendering an accepted source with targets comes to, part by part: the source is cut at the
targeted places and at their tops, and the new comments stand where the parts have lost a piece.

**Proof sketch.** The edits at a place are those of its targets (`map_replaceFrom_editsFor`), the
first of which replaces what stands above the place (`replaceFrom_targetsAmong`). So the source
falls into one part for each place (`splice?_parts`). -/
lemma exists_rendered_parts {s : Session} {g : Option Generator} {overwrite : Bool} {path source : Text} {d : Dialect}
    {units : List CodeUnit} {placed : List Placed} {targets : List Target} (hpath : Path.dialect? path = some d)
    (hread : Disk.read s.disk path = .ok source) (hunits : extract d source = .ok units)
    (hplaced : units.map (Placed.of? source) = placed.map some)
    (hamong : targetsAmong source overwrite (placed.map Placed.point) [] placed = targets) (hsome : targets ≠ []) :
    ∃ (r : Rendered) (places : List Nat) (parts : List Part) (rest : Text),
      (s.render g overwrite path).1 = .ok (.rendered r) ∧ r.original = source ∧ places.Pairwise (· < ·) ∧
      (∀ p, p ∈ places ↔ p ∈ placed.map Placed.point ∧ isTargeted source overwrite (placed.map Placed.point) p) ∧
      cutOut? 0 (clearedFrom (topAt source (placed.map Placed.point)) 0 places) source = some (parts, rest) ∧
      r.text = (List.zipWith (fun x p => x.kept ++
        addedAt (s.editsFor g path ((Path.extension? path).getD []) source targets.length 1 targets).1 p)
          parts places).flatten ++ rest := by
  have hchosen := map_toPlaced_targetsAmong source overwrite (placed.map Placed.point) [] placed
  rw [hamong] at hchosen
  have hunits' : units ≠ [] := by
    rintro rfl
    obtain rfl : placed = [] := by simpa using hplaced.symm
    exact hsome (by simpa using hchosen)
  have htargets : targets? source overwrite units = some targets := by
    rw [targets?_of_placed hplaced, hamong]
  have hrender := Session.render_of_targets? g hpath hread hunits htargets
  rw [if_neg hunits', if_neg hsome] at hrender
  have hpoints := mem_map_point_iff hchosen
  obtain ⟨places, hascend, hmem⟩ := exists_ascending (targets.map fun t => t.point)
  have hcut : ∀ p ∈ places, IsCut source p := by
    intro p hp
    obtain ⟨q, hq, rfl⟩ := List.mem_map.mp ((hpoints p).mp ((hmem p).mp hp)).1
    obtain ⟨u, -, hu⟩ := exists_mem_of_mapM (mapM_eq_some_iff.mpr hplaced) hq
    exact isCut_of_insertionPoint? (Placed.of?_eq_some_iff.mp hu).2.1
  have hfrom := fun p hp =>
    replaceFrom_editsFor hamong g path ((Path.extension? path).getD []) s ((hmem p).mp hp)
  obtain ⟨x, parts, rest, hsplice, hparts, htext⟩ := splice?_parts hascend
    (fun e he => (hmem _).mpr (point_mem_of_mem_editsFor he)) (fun p _ => topAt_le _ p)
    (fun p hp => ⟨hcut p hp, isCut_topAt (hcut p hp)⟩) hfrom
  rw [hsplice] at hrender
  exact ⟨_, places, parts, rest, hrender, rfl, hascend, fun p => (hmem p).trans (hpoints p), hparts, htext⟩

/-- **The new text of an accepted source**, whatever the options and whatever comments are made. The
units at a place are all targeted or all skipped; they are targeted if comments are to be
overwritten or none stands above the place. If there are targets, there is a new text: at each
targeted place, in ascending order, the text from the top of what stands above the place, but from
no earlier than the targeted place before, gives way to the comments of the units at the place, in
the order of the units, each with a line feed. All else stays in its order; without overwriting that
is the whole source.

**Proof sketch.** The source falls into one part for each targeted place (`exists_rendered_parts`),
and what the edits put in there are the comments for the place (`addedAt_editsFor`). -/
theorem render_parts {s : Session} {g : Option Generator} {overwrite : Bool} {path source : Text} {d : Dialect}
    {units : List CodeUnit} (hpath : Path.dialect? path = some d) (hread : Disk.read s.disk path = .ok source)
    (hunits : extract d source = .ok units) :
    ∃ (placed : List Placed) (targets : List Target) (blocks : List Text),
      units.map (Placed.of? source) = placed.map some ∧
      targets? source overwrite units = some targets ∧
      blocks = (s.editsFor g path ((Path.extension? path).getD []) source targets.length 1 targets).1.map Edit.block ∧
      targets.map Target.toPlaced =
        placed.filter (fun q => isTargeted source overwrite (placed.map Placed.point) q.point) ∧
      (∀ q ∈ placed, ∀ q' ∈ placed, q.point = q'.point →
        (q ∈ targets.map Target.toPlaced ↔ q' ∈ targets.map Target.toPlaced)) ∧
      if targets = [] then
        (s.render g overwrite path).1 = .ok (.skipped (if units = [] then .noUnits else .documented))
      else
        ∃ (r : Rendered) (places : List Nat) (parts : List Part) (rest : Text),
          (s.render g overwrite path).1 = .ok (.rendered r) ∧ r.original = source ∧
          places.Pairwise (· < ·) ∧
          (∀ p, p ∈ places ↔ p ∈ placed.map Placed.point ∧ isTargeted source overwrite (placed.map Placed.point) p) ∧
          cutOut? 0 (clearedFrom (topAt source (placed.map Placed.point)) 0 places) source = some (parts, rest) ∧
          source = (parts.map Part.old).flatten ++ rest ∧
          r.text = (List.zipWith (fun x p => x.kept ++ blocksAt targets blocks p) parts places).flatten ++ rest ∧
          (overwrite = false → source = (parts.map Part.kept).flatten ++ rest) := by
  obtain ⟨placed, hplaced, -⟩ := exists_placed_of_extract hunits
  obtain ⟨targets, hamong⟩ : ∃ targets, targetsAmong source overwrite (placed.map Placed.point) [] placed = targets :=
    ⟨_, rfl⟩
  have htargets : targets? source overwrite units = some targets := by
    rw [targets?_of_placed hplaced, hamong]
  have hchosen := map_toPlaced_targetsAmong source overwrite (placed.map Placed.point) [] placed
  rw [hamong] at hchosen
  refine ⟨placed, targets, _, hplaced, htargets, rfl, hchosen, fun q hq q' hq' hsame => ?_, ?_⟩
  · rw [hchosen, List.mem_filter, List.mem_filter, hsame]
    simp [hq, hq']
  have hrender := Session.render_of_targets? g hpath hread hunits htargets
  split
  · rename_i hnone
    rw [hrender, if_pos hnone]
    split <;> rfl
  rename_i hsome
  obtain ⟨r, places, parts, rest, hr, horiginal, hascend, hmem, hparts, htext⟩ :=
    exists_rendered_parts (g := g) hpath hread hunits hplaced hamong hsome
  have hadded := fun p => addedAt_editsFor g path ((Path.extension? path).getD []) source targets s p
  refine ⟨r, places, parts, rest, hr, horiginal, hascend, hmem, hparts, cutOut?_spec hparts,
    by rw [htext, funext hadded], fun hkeep => eq_kept_of_cutOut? hparts fun p hp => ?_⟩
  have htargeted := ((hmem p).mp hp).2
  rw [isTargeted, hkeep, Bool.false_or, Option.isNone_iff_eq_none] at htargeted
  rw [topAt, htargeted]
  rfl

/-- Two arrow functions share a line and the comment above it: the line gets two comments for the
one. -/
theorem render_parts_shared :
    ∃ (r : Rendered) (places : List Nat) (parts : List Part) (rest : Text),
      ((Session.withFile "a.js".toList "/***/\nconst a=()=>1,b=()=>2".toList).render none true "a.js".toList).1 =
        .ok (.rendered r) ∧
      (∀ p, p ∈ places ↔ p = 6) ∧
      cutOut? 0 (clearedFrom (topAt "/***/\nconst a=()=>1,b=()=>2".toList [6, 6]) 0 places)
        "/***/\nconst a=()=>1,b=()=>2".toList = some (parts, rest) ∧
      r.text = (List.zipWith (fun x p => x.kept ++
        if p = 6 then "/**\n * Performs a\n */\n/**\n * Performs b\n */\n".toList else []) parts places).flatten ++
          rest := by
  have hunits : extract .javaScript "/***/\nconst a=()=>1,b=()=>2".toList =
      .ok [⟨"a".toList, .arrow, [], none, ⟨14, 19⟩, false, [], []⟩,
        ⟨"b".toList, .arrow, [], none, ⟨22, 27⟩, false, [], []⟩] := by
    decide +kernel
  obtain ⟨placed, targets, blocks, hplaced, htargets, hblocks, -, -, hr⟩ :=
    @render_parts (Session.withFile "a.js".toList "/***/\nconst a=()=>1,b=()=>2".toList) none true "a.js".toList _
      .javaScript _ (by decide +kernel) rfl hunits
  obtain rfl : [⟨⟨"a".toList, .arrow, [], none, ⟨14, 19⟩, false, [], []⟩, 6, []⟩,
      ⟨⟨"b".toList, .arrow, [], none, ⟨22, 27⟩, false, [], []⟩, 6, []⟩] = placed :=
    Option.some.inj ((mapM_eq_some_iff (f := Placed.of? _)).mpr (by decide +kernel) |>.symm.trans
      (mapM_eq_some_iff.mpr hplaced))
  obtain rfl : [⟨⟨⟨"a".toList, .arrow, [], none, ⟨14, 19⟩, false, [], []⟩, 6, []⟩, 0⟩,
      ⟨⟨⟨"b".toList, .arrow, [], none, ⟨22, 27⟩, false, [], []⟩, 6, []⟩, 6⟩] = targets :=
    Option.some.inj (.trans (by decide +kernel) htargets)
  obtain rfl : ["/**\n * Performs a\n */".toList, "/**\n * Performs b\n */".toList] = blocks := by
    rw [hblocks]
    decide +kernel
  rw [if_neg (List.cons_ne_nil _ _)] at hr
  obtain ⟨r, places, parts, rest, hrender, -, -, hmem, hparts, -, htext, -⟩ := hr
  refine ⟨r, places, parts, rest, hrender, fun p => ?_, hparts, ?_⟩
  · rw [hmem]
    simp [isTargeted]
  · rw [htext]
    refine congrArg (fun l => (List.zipWith l parts places).flatten ++ rest) ?_
    funext x p
    by_cases hp : p = 6
    · subst hp
      rfl
    · have h₆ : 6 ≠ p := Ne.symm hp
      simp [blocksAt, hp, h₆]

end DocBlocks
