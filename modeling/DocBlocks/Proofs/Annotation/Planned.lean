import DocBlocks.Annotation.Rendering
import DocBlocks.Proofs.PartialMap
import DocBlocks.Proofs.Text.Cut

/-!
# Plans

What a run means to do with the units of a source: which of them get a comment, where, and what
stands there already.

## Main definitions

* `documentedAt`: whether a place has a comment above it.
* `isTargeted`: whether the units at a place get comments.
* `topAt`: the top of the comments that stand above a place.
* `editsOf`: the edits of a run without a generator.

## Main results

* `insertionPoint?_append`: the place of a comment is the start of its unit or of the line.
* `map_toPlaced_targetsAmong`: the targets are the units at the targeted places.
* `replaceFrom_targetsAmong`: the first target at a place replaces what stands there, the others
  nothing.
* `mem_targets?_keeping`: without overwriting, the targets are the units without a comment.
* `mem_targets?_overwriting`: with overwriting, what the targets replace.
* `Session.render_eq_rendered`: the new text of a file.
-/

namespace DocBlocks

open Text Comment

/-! ## Places -/

/-- **The place of a comment** is the start of its line if what stands there in front of the unit
belongs to the unit, and the start of the unit otherwise. -/
lemma insertionPoint?_append (shape : CodeUnit.Shape) (front back : Text) :
    insertionPoint? (front ++ back) shape (bytes front) =
      some (if Placement.moves shape (splitLastLine front).2 then bytes (splitLastLine front).1
        else bytes front) := by
  rw [insertionPoint?, splitAt?_append]

/-- Every place has an indentation where the source can be cut. -/
lemma isSome_indentationAt?_iff {source : Text} {x : Nat} :
    (indentationAt? source x).isSome ↔ IsCut source x := by
  rw [indentationAt?, IsCut]
  cases source.splitAt? x with
  | none => simp
  | some found => simp

/-- The place of a comment is one where the source can be cut. -/
lemma isCut_of_insertionPoint? {source : Text} {shape : CodeUnit.Shape} {start point : Nat}
    (h : insertionPoint? source shape start = some point) : IsCut source point := by
  rw [insertionPoint?] at h
  split at h
  · rename_i before rest hs
    obtain ⟨rfl, hstart⟩ := splitAt?_eq_some_iff.mp hs
    obtain ⟨hbefore, -, -⟩ := splitLastLine_spec before
    obtain rfl := Option.some.inj h
    refine isCut_iff.mpr ?_
    split
    · exact ⟨_, _, by rw [← List.append_assoc, ← hbefore], rfl⟩
    · exact ⟨before, rest, rfl, hstart⟩
  · cases h

/-- A unit with a place starts where the source can be cut. -/
lemma isCut_start_of_insertionPoint? {source : Text} {shape : CodeUnit.Shape} {start point : Nat}
    (h : insertionPoint? source shape start = some point) : IsCut source start := by
  rw [insertionPoint?] at h
  split at h
  · rename_i hs
    rw [IsCut, hs]
    rfl
  · cases h

/-- A unit has its place if the source can be cut where it starts. -/
lemma Placed.of?_eq_some_iff {source : Text} {u : CodeUnit} {p : Placed} :
    Placed.of? source u = some p ↔
      p.unit = u ∧ insertionPoint? source u.shape u.span.start = some p.point ∧
        indentationAt? source p.point = some p.indent := by
  simp only [Placed.of?, Option.bind_eq_bind, Option.bind_eq_some_iff, Option.pure_def, Option.some.injEq]
  constructor
  · rintro ⟨point, hpoint, indent, hindent, rfl⟩
    exact ⟨rfl, hpoint, hindent⟩
  · rintro ⟨rfl, hpoint, hindent⟩
    exact ⟨p.point, hpoint, p.indent, hindent, rfl⟩

/-- A unit with a place has an indentation there. -/
lemma exists_placed {source : Text} {u : CodeUnit} {point : Nat}
    (h : insertionPoint? source u.shape u.span.start = some point) :
    ∃ p, Placed.of? source u = some p ∧ p.point = point := by
  obtain ⟨indent, hindent⟩ := Option.isSome_iff_exists.mp
    (isSome_indentationAt?_iff.mpr (isCut_of_insertionPoint? h))
  exact ⟨⟨u, point, indent⟩, Placed.of?_eq_some_iff.mpr ⟨rfl, h, hindent⟩, rfl⟩

/-- The indentation of a place holds spaces and tabs only. -/
lemma isIndent_of_indentationAt? {source indent : Text} {x : Nat} (h : indentationAt? source x = some indent) :
    ∀ c ∈ indent, c = ' ' ∨ c = '\t' := by
  rw [indentationAt?] at h
  split at h
  · obtain rfl := Option.some.inj h
    split
    · intro c hc
      have := List.all_eq_true.mp List.all_takeWhile c hc
      simpa [Placement.isIndent] using this
    · simp
  · cases h

/-! ## What stands above a place -/

/-- Whether a place of a source has a comment above it. -/
def documentedAt (source : Text) (x : Nat) : Bool :=
  match source.splitAt? x with
  | some (before, _) => (above? before).isSome
  | none => false

/-- Comments stand above a place whether or not it is asked for all of them. -/
lemma isSome_standing? (source : Text) (points : List Nat) (x : Nat) :
    (standing? source points x).isSome = documentedAt source x := by
  rw [standing?, precedingRun?, documentedAt]
  cases source.splitAt? x with
  | none => rfl
  | some found => simp

/-! ## Targets -/

/-- Whether the units at a place get comments: with overwriting all do, and otherwise those above
which no comment stands. `points` are the places of all units. -/
def isTargeted (source : Text) (overwrite : Bool) (points : List Nat) (p : Nat) : Bool :=
  overwrite || (standing? source points p).isNone

/-- **The targets** are the units whose places are targeted, in their order. -/
lemma map_toPlaced_targetsAmong (source : Text) (overwrite : Bool) (points claimed : List Nat) (placed : List Placed) :
    (targetsAmong source overwrite points claimed placed).map Target.toPlaced =
      placed.filter fun q => isTargeted source overwrite points q.point := by
  induction placed generalizing claimed with
  | nil => rfl
  | cons q placed ih =>
    rw [targetsAmong, List.filter_cons, isTargeted]
    cases standing? source points q.point with
    | none => simp [ih]
    | some run => cases overwrite <;> simp [ih]

/-- Without overwriting, the targets are the placed units without a comment. -/
lemma targetsAmong_keeping (source : Text) (points claimed : List Nat) (placed : List Placed) :
    targetsAmong source false points claimed placed =
      (placed.filter fun p => !documentedAt source p.point).map fun p => { p with replaceFrom := p.point } := by
  induction placed with
  | nil => rfl
  | cons p placed ih =>
    have hsome := isSome_standing? source points p.point
    rw [targetsAmong]
    cases hs : standing? source points p.point with
    | none =>
      rw [hs] at hsome
      simp [ih, ← hsome]
    | some run =>
      rw [hs] at hsome
      simp [ih, ← hsome]

section Keeping

variable {source : Text} {units : List CodeUnit}

/-- Without overwriting, the targets of a source are its placed units without a comment. -/
lemma targets?_keeping_eq {targets : List Target} :
    targets? source false units = some targets ↔
      ∃ placed : List Placed, units.map (Placed.of? source) = placed.map some ∧
        targets = (placed.filter fun p => !documentedAt source p.point).map fun p =>
          { p with replaceFrom := p.point } := by
  simp only [targets?, Option.pure_def, Option.bind_eq_bind, Option.bind_eq_some_iff, Option.some.injEq,
    targetsAmong_keeping, mapM_eq_some_iff, @eq_comm _ targets]

/-- Without overwriting, there are no targets exactly if all units have their place and a comment
there. -/
lemma targets?_eq_nil_iff :
    targets? source false units = some [] ↔
      ∀ u ∈ units, ∃ p, Placed.of? source u = some p ∧ documentedAt source p.point := by
  rw [targets?_keeping_eq]
  constructor
  · rintro ⟨placed, hplaced, hnil⟩ u hu
    have hmem : Placed.of? source u ∈ placed.map some := hplaced ▸ List.mem_map_of_mem hu
    obtain ⟨p, hp, hpu⟩ := List.mem_map.mp hmem
    have hfilter := List.filter_eq_nil_iff.mp (List.map_eq_nil_iff.mp hnil.symm) p hp
    exact ⟨p, hpu.symm, by simpa using hfilter⟩
  · intro h
    obtain ⟨placed, hplaced⟩ := Option.isSome_iff_exists.mp
      (isSome_mapM_iff (f := Placed.of? source) (l := units)|>.mpr fun u hu => by
        obtain ⟨p, hp, -⟩ := h u hu
        simp [hp])
    refine ⟨placed, mapM_eq_some_iff.mp hplaced, Eq.symm ?_⟩
    rw [List.map_eq_nil_iff, List.filter_eq_nil_iff]
    intro p hp
    have hmem : some p ∈ units.map (Placed.of? source) := by
      rw [mapM_eq_some_iff.mp hplaced]
      exact List.mem_map_of_mem hp
    obtain ⟨u, hu, hup⟩ := List.mem_map.mp hmem
    obtain ⟨q, hq, hdoc⟩ := h u hu
    obtain rfl : q = p := Option.some.inj (hq.symm.trans hup)
    simp [hdoc]

/-- If a source has targets, all of its units have their places. -/
lemma exists_insertionPoint_of_targets? {overwrite : Bool} {targets : List Target}
    (h : targets? source overwrite units = some targets) {u : CodeUnit} (hu : u ∈ units) :
    ∃ point, insertionPoint? source u.shape u.span.start = some point := by
  simp only [targets?, Option.bind_eq_bind, Option.bind_eq_some_iff] at h
  obtain ⟨placed, hplaced, -⟩ := h
  have hmem : Placed.of? source u ∈ placed.map some := mapM_eq_some_iff.mp hplaced ▸ List.mem_map_of_mem hu
  obtain ⟨p, -, hp⟩ := List.mem_map.mp hmem
  exact ⟨p.point, (Placed.of?_eq_some_iff.mp hp.symm).2.1⟩

/-- **The targets without overwriting**: each is a unit in its place, without a comment there, and
replaces nothing. -/
lemma mem_targets?_keeping {targets : List Target} (h : targets? source false units = some targets) {t : Target}
    (ht : t ∈ targets) :
    t.unit ∈ units ∧ Placed.of? source t.unit = some t.toPlaced ∧ t.replaceFrom = t.point ∧
      documentedAt source t.point = false := by
  obtain ⟨placed, hplaced, rfl⟩ := targets?_keeping_eq.mp h
  obtain ⟨p, hp, rfl⟩ := List.mem_map.mp ht
  obtain ⟨hp, hdoc⟩ := List.mem_filter.mp hp
  have hmem : some p ∈ units.map (Placed.of? source) := by
    rw [hplaced]
    exact List.mem_map_of_mem hp
  obtain ⟨u, hu, hup⟩ := List.mem_map.mp hmem
  obtain rfl : p.unit = u := (Placed.of?_eq_some_iff.mp hup).1
  exact ⟨hu, hup, rfl, by simpa using hdoc⟩

end Keeping

/-- With overwriting, each placed unit is a target. -/
lemma map_targetsAmong_overwriting (source : Text) (points claimed : List Nat) (placed : List Placed) :
    (targetsAmong source true points claimed placed).map Target.toPlaced = placed := by
  rw [map_toPlaced_targetsAmong]
  exact List.filter_eq_self.mpr fun q _ => by rw [isTargeted, Bool.true_or]

/-- The start of the comments that stand above a place, or the place itself if there are none. -/
def topAt (source : Text) (points : List Nat) (p : Nat) : Nat := (standing? source points p).elim p Span.start

/-- **What the targets at a place replace**: the first of them all that stands above the place,
unless that is replaced already, and the others nothing. -/
lemma replaceFrom_targetsAmong (source : Text) (overwrite : Bool) (points : List Nat) (p : Nat) (claimed : List Nat)
    (placed : List Placed) :
    ((targetsAmong source overwrite points claimed placed).filter (·.point = p)).map (·.replaceFrom) = [] ∨
      ∃ k, ((targetsAmong source overwrite points claimed placed).filter (·.point = p)).map (·.replaceFrom) =
        (if claimed.contains p then p else topAt source points p) :: List.replicate k p := by
  induction placed generalizing claimed with
  | nil => exact .inl rfl
  | cons q placed ih =>
    rw [targetsAmong]
    by_cases hq : q.point = p
    · subst hq
      cases hrun : standing? source points q.point with
      | none =>
        have htop : topAt source points q.point = q.point := by simp [topAt, hrun]
        have ih := ih claimed
        rw [htop, ite_self] at ih ⊢
        rcases ih with h | ⟨k, h⟩
        · exact .inr ⟨0, by simp [h]⟩
        · exact .inr ⟨k + 1, by simp [h, List.replicate_succ]⟩
      | some run =>
        have htop : topAt source points q.point = run.start := by simp [topAt, hrun]
        cases overwrite with
        | false => exact ih claimed
        | true =>
          have ih := ih (q.point :: claimed)
          rw [if_pos (by simp)] at ih
          rw [htop]
          rcases ih with h | ⟨k, h⟩
          · exact .inr ⟨0, by simp [h]⟩
          · exact .inr ⟨k + 1, by simp [h, List.replicate_succ]⟩
    · cases standing? source points q.point with
      | none => simpa [hq] using ih claimed
      | some run =>
        cases overwrite with
        | false => exact ih claimed
        | true => simpa [hq, Ne.symm hq] using ih (q.point :: claimed)

/-- A target replaces nothing or all the comments that stand above its place. -/
lemma replaceFrom_of_mem_targetsAmong {source : Text} {overwrite : Bool} {points claimed : List Nat}
    {placed : List Placed} {t : Target} (ht : t ∈ targetsAmong source overwrite points claimed placed) :
    t.replaceFrom = t.point ∨ ∃ run, standing? source points t.point = some run ∧ t.replaceFrom = run.start := by
  have hfilter : t ∈ (targetsAmong source overwrite points claimed placed).filter (·.point = t.point) :=
    List.mem_filter.mpr ⟨ht, decide_eq_true rfl⟩
  have hmem := List.mem_map_of_mem (f := fun t : Target => t.replaceFrom) hfilter
  have htop : topAt source points t.point = t.point ∨
      ∃ run, standing? source points t.point = some run ∧ topAt source points t.point = run.start := by
    rw [topAt]
    cases standing? source points t.point with
    | none => exact .inl rfl
    | some run => exact .inr ⟨run, rfl, rfl⟩
  obtain hnone | ⟨k, hsome⟩ := replaceFrom_targetsAmong source overwrite points t.point claimed placed
  · rw [hnone] at hmem
    cases hmem
  · rw [hsome] at hmem
    obtain hfirst | hlater := List.mem_cons.mp hmem
    · rw [hfirst]
      split
      · exact .inl rfl
      · exact htop
    · exact .inl (List.eq_of_mem_replicate hlater)

/-- **The targets with overwriting**: each replaces nothing or the run of comments above its place,
of which there are at most as many as there are targets at the place. -/
lemma mem_targets?_overwriting {source : Text} {units : List CodeUnit} {targets : List Target}
    (h : targets? source true units = some targets) {t : Target} (ht : t ∈ targets) :
    t.replaceFrom = t.point ∨ ∃ before rest, source = before ++ rest ∧ bytes before = t.point ∧
      t.replaceFrom = bytes (aboveRun ((targets.map (·.point)).count t.point) before) := by
  simp only [targets?, Option.bind_eq_bind, Option.bind_eq_some_iff, Option.pure_def, Option.some.injEq] at h
  obtain ⟨placed, -, rfl⟩ := h
  have hpoints : (targetsAmong source true (placed.map Placed.point) [] placed).map (·.point) =
      placed.map Placed.point := by
    conv_rhs => rw [← map_targetsAmong_overwriting source (placed.map Placed.point) [] placed]
    simp
  have hcount : 0 < (placed.map Placed.point).count t.point := by
    rw [← hpoints]
    exact List.count_pos_iff.mpr (List.mem_map_of_mem (f := fun t : Target => t.point) ht)
  rw [hpoints]
  refine (replaceFrom_of_mem_targetsAmong ht).imp_right ?_
  rintro ⟨run, hrun, hfrom⟩
  rw [standing?, precedingRun?] at hrun
  split at hrun
  · rename_i before rest hsplit
    obtain ⟨rfl, hbytes⟩ := splitAt?_eq_some_iff.mp hsplit
    obtain ⟨top, htop, rfl⟩ := Option.map_eq_some_iff.mp hrun
    obtain ⟨n, hn⟩ := Nat.exists_eq_add_of_le' hcount
    refine ⟨before, rest, rfl, hbytes, ?_⟩
    rw [hfrom, hn, aboveRun, htop, Nat.add_sub_cancel]
  · cases hrun

/-! ## Edits -/

/-- The edits for targets with comments made from what is known about their units. -/
def editsOf (targets : List Target) : List Edit :=
  targets.map fun t =>
    ⟨t.unit.name, t.point, t.replaceFrom, CodeUnit.block { t.unit with summary := t.unit.summarize } t.indent⟩

/-- Edits go to the places of their targets, whatever the comments are. -/
lemma Session.map_editsFor (g : Option Generator) (path extension source : Text) (total : Nat) (targets : List Target)
    (index : Nat) (s : Session) :
    (s.editsFor g path extension source total index targets).1.map (fun e => (e.point, e.replaceFrom)) =
      targets.map fun t => (t.point, t.replaceFrom) := by
  induction targets generalizing index s with
  | nil => rfl
  | cons t ts ih =>
    simp only [Session.editsFor, Session.editFor, List.map_cons]
    exact congrArg _ (ih _ _)

/-- Without a generator, the edits do not depend on the session. -/
lemma Session.editsFor_none (path extension source : Text) (total : Nat) (targets : List Target) (index : Nat)
    (s : Session) : (s.editsFor none path extension source total index targets).1 = editsOf targets := by
  induction targets generalizing index s with
  | nil => rfl
  | cons t ts ih =>
    simp only [Session.editsFor, Session.editFor, Session.describe, editsOf, List.map_cons]
    exact congrArg _ (ih _ _)

/-! ## Plans and renderings -/

/-- A session on a disk with one file. -/
def Session.withFile (name text : Text) : Session := { disk := .folder [(name, .file (.text text))] }

section Plan

variable {d : Dialect} {extension source : Text} {overwrite : Bool}

/-- A source is documented if it is accepted and has units, but none of them is a target. -/
lemma Plan.ofSource_eq_documented_iff :
    Plan.ofSource d extension source overwrite = .ok (.skip .documented) ↔
      ∃ units, extract d source = .ok units ∧ units ≠ [] ∧ targets? source overwrite units = some [] := by
  rw [Plan.ofSource]
  cases extract d source with
  | error e => simp
  | ok units =>
    rcases units with _ | ⟨u, units⟩
    · simp
    · rcases ht : targets? source overwrite (u :: units) with _ | (_ | ⟨t, targets⟩) <;> simp [ht]

/-- There is something to do about a source if it is accepted and has targets. -/
lemma Plan.ofSource_eq_document {extension' source' : Text} {targets : List Target}
    (h : Plan.ofSource d extension source overwrite = .ok (.document extension' source' targets)) :
    source' = source ∧ ∃ units, extract d source = .ok units ∧ units ≠ [] ∧
      targets? source overwrite units = some targets := by
  rw [Plan.ofSource] at h
  cases he : extract d source with
  | error e => simp [he] at h
  | ok units =>
    rw [he] at h
    rcases units with _ | ⟨u, units⟩
    · simp at h
    · rcases ht : targets? source overwrite (u :: units) with _ | (_ | ⟨t, targets'⟩)
      · simp [ht] at h
      · simp [ht] at h
      · simp only [ht, Except.ok.injEq, Plan.document.injEq] at h
        obtain ⟨-, rfl, rfl⟩ := h
        exact ⟨rfl, u :: units, rfl, by simp, ht⟩

end Plan

section Render

variable {s : Session} {overwrite : Bool} {path : Text}

/-- A file has a plan if its dialect is known and it can be read. -/
lemma Plan.ofFile_eq_ok {disk : Entry} {plan : Plan} (h : Plan.ofFile disk path overwrite = .ok plan)
    (hplan : plan ≠ .skip .unsupported) :
    ∃ d source, Path.dialect? path = some d ∧ Disk.read disk path = .ok source ∧
      Plan.ofSource d ((Path.extension? path).getD []) source overwrite = .ok plan := by
  rw [Plan.ofFile] at h
  cases hd : Path.dialect? path with
  | none =>
    rw [hd] at h
    exact absurd (Except.ok.inj h).symm hplan
  | some d =>
    cases hread : Disk.read disk path with
    | error f => simp [hd, hread] at h
    | ok source => exact ⟨d, source, rfl, rfl, by simpa [hd, hread] using h⟩

/-- **A file with a new text**: it is what the edits for the targets of the source make of the
source. -/
lemma Session.render_eq_rendered {g : Option Generator} {r : Rendered}
    (h : (s.render g overwrite path).1 = .ok (.rendered r)) :
    ∃ d units targets extension, Path.dialect? path = some d ∧ extract d r.original = .ok units ∧ units ≠ [] ∧
      targets? r.original overwrite units = some targets ∧
      splice? r.original (s.editsFor g path extension r.original targets.length 1 targets).1 =
        some ⟨r.text, r.report⟩ := by
  rw [Session.render] at h
  cases hplan : Plan.ofFile s.disk path overwrite with
  | error f => simp [hplan] at h
  | ok plan =>
    cases plan with
    | skip reason => simp [hplan] at h
    | document extension source targets =>
      simp only [hplan] at h
      cases hsplice : splice? source (s.editsFor g path extension source targets.length 1 targets).1 with
      | none => simp [hsplice] at h
      | some spliced =>
        simp only [hsplice, Except.ok.injEq, Rendering.rendered.injEq] at h
        subst h
        obtain ⟨d, source', hd, -, hsource⟩ := Plan.ofFile_eq_ok hplan (by simp)
        obtain ⟨rfl, units, hunits, hne, htargets⟩ := Plan.ofSource_eq_document hsource
        exact ⟨d, units, targets, extension, hd, hunits, hne, htargets, hsplice⟩

/-- **A file without a new text** since all its units have comments. -/
lemma Session.render_eq_documented_iff :
    (s.render none overwrite path).1 = .ok (.skipped .documented) ↔
      ∃ d source units, Path.dialect? path = some d ∧ Disk.read s.disk path = .ok source ∧
        extract d source = .ok units ∧ units ≠ [] ∧ targets? source overwrite units = some [] := by
  constructor
  · intro h
    rw [Session.render] at h
    cases hplan : Plan.ofFile s.disk path overwrite with
    | error f => simp [hplan] at h
    | ok plan =>
      cases plan with
      | skip reason =>
        simp only [hplan, Except.ok.injEq, Rendering.skipped.injEq] at h
        subst h
        obtain ⟨d, source, hd, hread, hsource⟩ := Plan.ofFile_eq_ok hplan (by simp)
        exact ⟨d, source, (Plan.ofSource_eq_documented_iff.mp hsource).imp fun units h => ⟨hd, hread, h⟩⟩
      | document extension source targets =>
        simp only [hplan] at h
        split at h <;> simp at h
  · rintro ⟨d, source, units, hd, hread, hunits⟩
    have hsource : Plan.ofSource d ((Path.extension? path).getD []) source overwrite = _ :=
      Plan.ofSource_eq_documented_iff.mpr ⟨units, hunits⟩
    simp [Session.render, Plan.ofFile, hd, hread, hsource]

end Render

end DocBlocks
