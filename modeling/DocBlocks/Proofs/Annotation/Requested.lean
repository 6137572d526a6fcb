import DocBlocks.Proofs.Annotation.Gated
import DocBlocks.Proofs.Annotation.Sliced

/-!
# What a generator can change

A run that asks a generator for the comments is compared with the same run without one. They differ
in the comments, and so in the new text, and in nothing else: neither in what is reported, nor in
what is asked of the one who decides, nor in how they end. A reply that is of no use costs its own
unit the requested comment, and no other one.

## Main definitions

* `Edit.bare`, `Outcome.bare`, `Event.outward?`: edits, outcomes and events but for comments and new
  texts.
* `Session.replies`: the replies of a generator to prompts.
* `Prompt.AsksFor`: the prompts that ask for the comment of a unit.
* `Target.ownBlock`, `Target.blockFor`: the comment of a target that is made without a generator,
  and the one for a reply.

## Main results

* `Splice.report_eq_of_bare`: the report on edits does not depend on their blocks.
* `Session.map_block_editsFor`: the comments for targets, reply by reply.
* `Session.filterMap_events_editsFor`: what happens while comments are made.
* `Session.annotateFile_external`: a run on a file with a generator and the same run without one.
-/

namespace DocBlocks

open Text Splice

/-! ## Reports -/

/-- An edit but for its block. -/
def Edit.bare (e : Edit) : Edit := { e with block := [] }

namespace Splice

/-- Adding an edit does not depend on blocks. -/
lemma map_bare_insert (e : Edit) (ds : List Edit) : (e.insert ds).map Edit.bare = e.bare.insert (ds.map Edit.bare) := by
  induction ds with
  | nil => rfl
  | cons d ds ih =>
    rw [Edit.insert, List.map_cons, Edit.insert]
    by_cases hle : e.point ≤ d.point
    · rw [if_pos hle, if_pos (show e.bare.point ≤ d.bare.point from hle)]
      rfl
    · rw [if_neg hle, if_neg (show ¬ e.bare.point ≤ d.bare.point from hle), List.map_cons, ih]

/-- The order of edits does not depend on their blocks. -/
lemma map_bare_sortEdits (edits : List Edit) : (sortEdits edits).map Edit.bare = sortEdits (edits.map Edit.bare) := by
  induction edits with
  | nil => rfl
  | cons e edits ih =>
    rw [List.map_cons, sortEdits, List.foldr_cons, map_bare_insert, ← sortEdits, ih]
    rfl

lemma reportFrom_map_bare (source : Text) (last : Nat) (es : List Edit) :
    reportFrom source last (es.map Edit.bare) = reportFrom source last es := by
  induction es generalizing last with
  | nil => rfl
  | cons e es ih =>
    rw [List.map_cons, reportFrom, reportFrom]
    exact congrArg _ (ih e.point)

/-- **The report on edits does not depend on their blocks.** -/
lemma report_eq_of_bare {source : Text} {edits edits' : List Edit} {x x' : Spliced}
    (hbare : edits.map Edit.bare = edits'.map Edit.bare) (h : splice? source edits = some x)
    (h' : splice? source edits' = some x') : x.report = x'.report := by
  rw [report_splice? h, report_splice? h', ← reportFrom_map_bare, ← reportFrom_map_bare _ _ (sortEdits edits'),
    map_bare_sortEdits, map_bare_sortEdits, hbare]

end Splice

/-! ## Prompts -/

/-- Whether a prompt asks for the comment of a unit of a source. It tells the extension of the file,
the name of the unit, the names of its parameters and its text in the source. -/
structure Prompt.AsksFor (p : Prompt) (extension source : Text) (u : CodeUnit) : Prop where
  system : p.system = instruction
  user : ∃ code, source.slice? u.span.start u.span.stop = some code ∧
    p.user =
      "File extension: .".toList ++ extension.dropWhile (· = '.') ++ "\nFunction name: ".toList ++ u.name ++
        "\nParameters: ".toList ++
        (if u.parameters = [] then "none".toList else [',', ' '].intercalate (u.parameters.map Parameter.name)) ++
        "\n\nFunction code:\n".toList ++ code ++ "\n\nGenerate the JSDoc for this function.".toList

/-- The prompt for a unit of an accepted source asks for its comment. -/
lemma asksFor_prompt {d : Dialect} {source : Text} {units : List CodeUnit} (hunits : extract d source = .ok units)
    {u : CodeUnit} (hu : u ∈ units) (extension : Text) : (u.prompt extension source).AsksFor extension source u := by
  obtain ⟨code, hcode⟩ := exists_slice?_of_extract hunits u hu
  have htext : u.text source = code := by rw [CodeUnit.text, hcode, Option.getD_some]
  have hprompt : u.prompt extension source =
      ⟨Prompt.instruction, Prompt.message extension u.name (u.parameters.map Parameter.name) code⟩ := by
    rw [← htext]
    rfl
  have hlisted : (if u.parameters.map Parameter.name = [] then "none".toList
      else [',', ' '].intercalate (u.parameters.map Parameter.name)) =
        if u.parameters = [] then "none".toList else [',', ' '].intercalate (u.parameters.map Parameter.name) := by
    simp only [List.map_eq_nil_iff]
  rw [hprompt]
  refine ⟨by dsimp only, code, hcode, ?_⟩
  unfold Prompt.message
  dsimp only
  rw [hlisted]

/-! ## Replies -/

/-- The comment of a target that is made from what is known about its unit. -/
def Target.ownBlock (t : Target) : Text := CodeUnit.block { t.unit with summary := t.unit.summarize } t.indent

/-- The comment of a target for the reply to its prompt: the comment in the text of the reply, put
behind the indentation, or its own one if the reply has no text or there is no comment in it. -/
def Target.blockFor (t : Target) : Reply → Text
  | .text answer =>
    match Comment.sanitize? answer with
    | some comment => Comment.reindent comment t.indent
    | none => t.ownBlock
  | .nothing | .failed _ => t.ownBlock

lemma Target.blockFor_eq (t : Target) (reply : Reply) : t.blockFor reply = (reply.comment? t.indent).getD t.ownBlock := by
  cases reply with
  | text answer =>
    rw [blockFor, Reply.comment?]
    cases Comment.sanitize? answer <;> rfl
  | nothing => rfl
  | failed f => rfl

namespace Session

/-- The replies to prompts that are put one after the other. There is nothing in the replies of no
generator. -/
def replies : Option Generator → List Prompt → Session → List Reply
  | _, [], _ => []
  | none, _ :: ps, s => .nothing :: s.replies none ps
  | some g, p :: ps, s => (s.ask g p).1 :: (s.ask g p).2.replies (some g) ps

/-- Whether two sessions have the same replies and answers to come. -/
structure Supplies (s s' : Session) : Prop where
  script : s'.script = s.script
  answers : s'.answers = s.answers

/-- A reply depends on the replies and answers to come only. -/
lemma Supplies.ask {s s' : Session} (h : s.Supplies s') (g : Generator) (p : Prompt) :
    (s'.ask g p).1 = (s.ask g p).1 ∧ (s.ask g p).2.Supplies (s'.ask g p).2 := by
  obtain ⟨disk, script, answers, decisions, refusals, closed, events⟩ := s
  obtain ⟨disk', script', answers', decisions', refusals', closed', events'⟩ := s'
  obtain ⟨rfl, rfl⟩ := h
  cases g with
  | script =>
    rcases script' with _ | (_ | ⟨reply, script⟩) <;> exact ⟨rfl, rfl, rfl⟩
  | service settings =>
    simp only [Session.ask, record, askService]
    cases settings.request p with
    | error obstacle => exact ⟨rfl, rfl, rfl⟩
    | ok request => cases answers' <;> exact ⟨rfl, rfl, rfl⟩

/-- Replies depend on the replies and answers to come only. -/
lemma Supplies.replies {s s' : Session} (h : s.Supplies s') (g : Option Generator) (ps : List Prompt) :
    s'.replies g ps = s.replies g ps := by
  induction ps generalizing s s' with
  | nil => cases g <;> rfl
  | cons p ps ih =>
    cases g with
    | none => rw [Session.replies, Session.replies, ih h]
    | some g =>
      obtain ⟨hreply, hsupplies⟩ := h.ask g p
      rw [Session.replies, Session.replies, hreply, ih hsupplies]

/-- There is one reply to each prompt. -/
lemma length_replies (g : Option Generator) (ps : List Prompt) (s : Session) : (s.replies g ps).length = ps.length := by
  induction ps generalizing s with
  | nil => cases g <;> rfl
  | cons p ps ih =>
    cases g with
    | none => exact congrArg _ (ih s)
    | some g => exact congrArg _ (ih (s.ask g p).2)

/-- **The replies written down beforehand** are those to the prompts in their order, and there is
nothing in further ones. -/
lemma replies_script {s : Session} {script : List Reply} (h : s.script = some script) (ps : List Prompt) :
    s.replies (some .script) ps = (List.range ps.length).map fun k => script.getD k .nothing := by
  induction ps generalizing s script with
  | nil => rfl
  | cons p ps ih =>
    rw [replies, List.length_cons, List.range_succ_eq_map, List.map_cons, List.map_map]
    cases script with
    | nil =>
      have hask : (s.ask .script p).1 = .nothing ∧ (s.ask .script p).2.script = some [] := by
        simp [ask, nextReply, record, h]
      rw [hask.1, ih hask.2]
      rfl
    | cons reply script =>
      have hask : (s.ask .script p).1 = reply ∧ (s.ask .script p).2.script = some script := by
        simp [ask, nextReply, record, h]
      rw [hask.1, ih hask.2]
      rfl

/-- **The comments for targets.** Each target gets the comment in the reply to its own prompt, and
the comment that is made without a generator if there is none in that reply.

**Proof sketch.** Induction on the targets. What is recorded when the work on a unit starts changes
no reply (`Supplies.replies`). -/
lemma map_block_editsFor (g : Option Generator) (path extension source : Text) (total index : Nat)
    (targets : List Target) (s : Session) :
    (s.editsFor g path extension source total index targets).1.map Edit.block =
      List.zipWith Target.blockFor targets (s.replies g (targets.map fun t => t.unit.prompt extension source)) := by
  induction targets generalizing index s with
  | nil => rfl
  | cons t ts ih =>
    have hstarted : s.Supplies (s.record (.started path t.unit.name index total)) := ⟨rfl, rfl⟩
    cases g with
    | none =>
      simp only [editsFor, editFor, describe, List.map_cons, ih, hstarted.replies, replies, List.zipWith_cons_cons]
      rfl
    | some g =>
      obtain ⟨hreply, hsupplies⟩ := hstarted.ask g (t.unit.prompt extension source)
      simp only [editsFor, editFor, describe, List.map_cons, ih, replies, List.zipWith_cons_cons]
      refine congrArg₂ List.cons ?_ ?_
      · rw [← hreply, Target.blockFor_eq]
        rfl
      · rw [← hsupplies.replies]
        rfl

/-! ## What happens on the way -/

/-- What is recorded, seen through a function. -/
lemma filterMap_events_record {β : Type} (f : Event → Option β) (e : Event) (s : Session) :
    (s.record e).events.filterMap f = s.events.filterMap f ++ (f e).toList := by
  rw [record, List.filterMap_append]
  cases hf : f e <;> simp [hf]

/-- What asking a generator adds to the record, seen through a function that passes over the answers
of servers. -/
lemma filterMap_events_ask {β : Type} {f : Event → Option β} (hanswered : ∀ r, f (.answered r) = none) (g : Generator)
    (p : Prompt) (s : Session) :
    (s.ask g p).2.events.filterMap f = s.events.filterMap f ++ (f (.prompted g p)).toList := by
  rw [← filterMap_events_record]
  cases g with
  | script =>
    rw [ask, nextReply]
    split <;> rfl
  | service settings =>
    simp only [ask, askService]
    split
    · rfl
    · split
      · rfl
      · rw [filterMap_events_record, hanswered, Option.toList_none, List.append_nil]

/-- **What happens while comments are made**, seen through such a function: for each target, in
their order, its work starts, and the generator is asked once if there is one. -/
lemma filterMap_events_editsFor {β : Type} {f : Event → Option β} (hanswered : ∀ r, f (.answered r) = none)
    (g : Option Generator) (path extension source : Text) (total index : Nat) (targets : List Target) (s : Session) :
    (s.editsFor g path extension source total index targets).2.events.filterMap f =
      s.events.filterMap f ++ (targets.zipIdx index).flatMap fun (t, k) =>
        (f (.started path t.unit.name k total)).toList ++
          g.toList.flatMap fun g => (f (.prompted g (t.unit.prompt extension source))).toList := by
  induction targets generalizing index s with
  | nil => simp [editsFor]
  | cons t ts ih =>
    have hstarted := s.filterMap_events_record f (.started path t.unit.name index total)
    simp only [editsFor, editFor, ih, List.zipIdx_cons, List.flatMap_cons]
    cases g with
    | none =>
      simp only [describe, hstarted]
      simp
    | some g =>
      have hask := filterMap_events_ask hanswered g (t.unit.prompt extension source)
        (s.record (.started path t.unit.name index total))
      rw [hstarted] at hask
      have hdescribe : ∀ s' : Session, (s'.describe (some g) extension source
          { t.unit with summary := t.unit.summarize } t.indent).2 = (s'.ask g (t.unit.prompt extension source)).2 :=
        fun _ => rfl
      rw [hdescribe, hask]
      simp

end Session

/-! ## Two runs -/

/-- The prompt in an event, with the generator that was asked. -/
def Event.prompt? : Event → Option (Generator × Prompt)
  | prompted g p => some (g, p)
  | _ => none

/-- The progress in an event: the file, the name of the unit, and its number out of the total. -/
def Event.progress? : Event → Option (Text × Text × Nat × Nat)
  | started file name index total => some (file, name, index, total)
  | _ => none

/-- What an event shows to those outside, but for new texts. The prompts and the answers of servers
do not show. -/
def Event.outward? : Event → Option Event
  | started file name index total => some (started file name index total)
  | decided p answer => some (decided { p with proposed := [] } answer)
  | prompted _ _ | answered _ => none

/-- An outcome but for the new text. -/
def Outcome.bare : Outcome → Outcome
  | previewed n _ => previewed n []
  | outcome => outcome

namespace Session

/-- Whether two sessions look the same from outside, but for new texts. -/
structure Looks (s s' : Session) : Prop where
  disk : s'.disk = s.disk
  refusals : s'.refusals = s.refusals
  decisions : s'.decisions = s.decisions
  outward : s'.events.filterMap Event.outward? = s.events.filterMap Event.outward?

/-- Showing or writing a text is not recorded. -/
lemma events_finish (o : Options) (r : Rendered) (s : Session) : (s.finish o r).2.events = s.events := by
  rw [finish]
  split
  · rfl
  · rw [commit]
    cases r.commit s.disk s.refusal <;> rfl

/-- How showing or writing a text ends does not depend on the text. -/
lemma Looks.finish {s s' : Session} (h : s.Looks s') (o : Options) (r : Rendered) (text : Text) :
    Except.map Outcome.bare (s'.finish o { r with text := text }).1 = Except.map Outcome.bare (s.finish o r).1 := by
  rw [Session.finish, Session.finish]
  by_cases hpreview : o.preview
  · rw [if_pos hpreview, if_pos hpreview]
    rfl
  · have hrefusal : s'.refusal = s.refusal := congrArg (List.headD · none) h.refusals
    rw [if_neg hpreview, if_neg hpreview, commit, commit, Rendered.commit_eq, Rendered.commit_eq, h.disk, hrefusal]
    cases hread : Disk.read s.disk r.path with
    | error f => rfl
    | ok content =>
      have hfingerprint : Rendered.fingerprint { r with text := text } = r.fingerprint := rfl
      by_cases hsame : DocBlocks.fingerprint content = r.fingerprint
      · simp only [hfingerprint, if_pos hsame]
        cases s.refusal <;> rfl
      · simp only [hfingerprint, if_neg hsame]

/-- How a decision about a text comes out does not depend on the text, nor does what shows of it but
for the text. -/
lemma Looks.settle {s s' : Session} (h : s.Looks s') (o : Options) (r : Rendered) (text : Text) :
    Except.map Outcome.bare (s'.settle o { r with text := text }).1 = Except.map Outcome.bare (s.settle o r).1 ∧
      (s'.settle o { r with text := text }).2.events.filterMap Event.outward? =
        (s.settle o r).2.events.filterMap Event.outward? := by
  rw [Session.settle, Session.settle]
  by_cases hinteractive : o.interactive
  · rw [if_pos hinteractive, if_pos hinteractive, consult, consult, h.decisions]
    cases s.decisions with
    | none => exact ⟨rfl, h.outward⟩
    | some answers =>
      -- the question shows but for the text, so the sessions still look the same behind it
      have hasked : ∀ answer : Bool,
          ({ s with decisions := some answers.tail }.record (.decided (r.proposal o.preview) answer)).Looks
            ({ s' with decisions := some answers.tail }.record
              (.decided (Rendered.proposal { r with text := text } o.preview) answer)) := by
        intro answer
        refine ⟨h.disk, h.refusals, rfl, ?_⟩
        rw [filterMap_events_record, filterMap_events_record]
        exact congrArg (· ++ _) h.outward
      rcases answers with _ | ⟨_ | _, answers⟩
      · exact ⟨rfl, (hasked false).outward⟩
      · exact ⟨rfl, (hasked false).outward⟩
      · refine ⟨(hasked true).finish o r text, ?_⟩
        simp only [List.headD_cons]
        rw [events_finish, events_finish]
        exact (hasked true).outward
  · rw [if_neg hinteractive, if_neg hinteractive, events_finish, events_finish]
    exact ⟨h.finish o r text, h.outward⟩

/-- A decision about a text adds nothing to the record but the question. -/
lemma filterMap_events_settle {β : Type} {f : Event → Option β} (hdecided : ∀ p answer, f (.decided p answer) = none)
    (o : Options) (r : Rendered) (s : Session) : (s.settle o r).2.events.filterMap f = s.events.filterMap f := by
  rw [settle]
  by_cases hinteractive : o.interactive
  · rw [if_pos hinteractive, consult]
    cases s.decisions with
    | none => rfl
    | some answers =>
      have hasked : ∀ answer : Bool, ({ s with decisions := some answers.tail }.record (.decided (r.proposal o.preview)
          answer)).events.filterMap f = s.events.filterMap f := by
        intro answer
        rw [filterMap_events_record, hdecided, Option.toList_none, List.append_nil]
      rcases answers with _ | ⟨_ | _, answers⟩
      · exact hasked false
      · exact hasked false
      · simp only [List.headD_cons]
        rw [events_finish]
        exact hasked true
  · rw [if_neg hinteractive, events_finish]

section Editing

variable (g : Option Generator) (path extension source : Text) (total index : Nat) (targets : List Target) (s : Session)

/-- The prompts for targets are one for each, in their order. -/
lemma prompts_editsFor :
    (s.editsFor g path extension source total index targets).2.events.filterMap Event.prompt? =
      s.events.filterMap Event.prompt? ++
        g.toList.flatMap fun g => targets.map fun t => (g, t.unit.prompt extension source) := by
  rw [filterMap_events_editsFor fun _ => rfl]
  refine congrArg _ ?_
  cases g with
  | none => simp [Event.prompt?]
  | some g =>
    have htargets : targets = (targets.zipIdx index).map Prod.fst := (List.zipIdx_map_fst index targets).symm
    conv_rhs => rw [htargets]
    rw [Option.toList_some, List.flatMap_singleton, List.map_map, List.map_eq_flatMap]
    rfl

/-- The progress on targets is one step for each, in their order. -/
lemma progress_editsFor :
    (s.editsFor g path extension source total index targets).2.events.filterMap Event.progress? =
      s.events.filterMap Event.progress? ++
        (targets.zipIdx index).map fun (t, k) => (path, t.unit.name, k, total) := by
  rw [filterMap_events_editsFor fun _ => rfl, List.map_eq_flatMap]
  cases g <;> rfl

/-- What shows of the work on targets is the progress. -/
lemma outward_editsFor :
    (s.editsFor g path extension source total index targets).2.events.filterMap Event.outward? =
      s.events.filterMap Event.outward? ++
        (targets.zipIdx index).map fun (t, k) => .started path t.unit.name k total := by
  rw [filterMap_events_editsFor fun _ => rfl, List.map_eq_flatMap]
  cases g <;> rfl

/-- **Asking a generator does not show**: behind the work on targets, a session that has a generator
looks like the one that has none. -/
lemma looks_editsFor :
    (s.editsFor none path extension source total index targets).2.Looks
      (s.editsFor g path extension source total index targets).2 := by
  have hwith := s.generates_editsFor g path extension source total index targets
  have hwithout := s.generates_editsFor none path extension source total index targets
  refine ⟨hwith.disk.trans hwithout.disk.symm, hwith.refusals.trans hwithout.refusals.symm,
    hwith.decisions.trans hwithout.decisions.symm, ?_⟩
  rw [outward_editsFor, outward_editsFor]

end Editing

/-- The comments for targets that come of asking a generator. -/
def blocksFor (g : Option Generator) (extension source : Text) (targets : List Target) (s : Session) : List Text :=
  List.zipWith Target.blockFor targets (s.replies g (targets.map fun t => t.unit.prompt extension source))

/-- **What a plan to document comes to**: the comments for its targets go to their places. -/
lemma render_of_document {s : Session} {path extension source : Text} {overwrite : Bool} {targets : List Target}
    (hplan : Plan.ofFile s.disk path overwrite = .ok (.document extension source targets)) (g : Option Generator) :
    ∃ x, splice? source (editsWith targets (s.blocksFor g extension source targets)) = some x ∧
      s.render g overwrite path = (.ok (.rendered ⟨path, source, x.text, x.report⟩),
        (s.editsFor g path extension source targets.length 1 targets).2) := by
  have hedits : (s.editsFor g path extension source targets.length 1 targets).1 =
      editsWith targets (s.blocksFor g extension source targets) := by
    rw [s.editsFor_eq_zipWith, map_block_editsFor]
    rfl
  obtain ⟨x, hx⟩ := Option.isSome_iff_exists.mp
    (Plan.isSome_splice? hplan (s.blocksFor g extension source targets))
  refine ⟨x, hx, ?_⟩
  rw [render, hplan]
  simp only [hedits, hx]

/-- The comments for targets without a generator. -/
lemma blocksFor_none (extension source : Text) (targets : List Target) (s : Session) :
    s.blocksFor none extension source targets = targets.map Target.ownBlock := by
  rw [blocksFor]
  induction targets with
  | nil => rfl
  | cons t ts ih =>
    rw [List.map_cons, replies, List.zipWith_cons_cons, ih, List.map_cons]
    rfl

/-- There is one comment for each target. -/
lemma length_blocksFor (g : Option Generator) (extension source : Text) (targets : List Target) (s : Session) :
    (s.blocksFor g extension source targets).length = targets.length := by
  rw [blocksFor, List.length_zipWith, length_replies, List.length_map, Nat.min_self]

/-- Units are those that are placed. -/
lemma map_unit_of_placed {source : Text} {units : List CodeUnit} {placed : List Placed}
    (h : units.map (Placed.of? source) = placed.map some) : placed.map Placed.unit = units := by
  induction units generalizing placed with
  | nil =>
    obtain rfl : placed = [] := by simpa using h.symm
    rfl
  | cons u units ih =>
    cases placed with
    | nil => simp at h
    | cons p placed =>
      obtain ⟨hp, hplaced⟩ := List.cons.inj h
      rw [List.map_cons, ih hplaced, (Placed.of?_eq_some_iff.mp hp).1]

/-- The units of the targets of a plan are units of the source, in their order. -/
lemma sublist_of_document {disk : Entry} {path extension source : Text} {overwrite : Bool} {targets : List Target}
    (hplan : Plan.ofFile disk path overwrite = .ok (.document extension source targets)) :
    ∃ d units, Path.dialect? path = some d ∧ extract d source = .ok units ∧
      targets? source overwrite units = some targets ∧ (targets.map fun t => t.unit).Sublist units := by
  obtain ⟨d, source', hd, -, hsource⟩ := Plan.ofFile_eq_ok hplan (by simp)
  obtain ⟨rfl, units, hunits, -, htargets⟩ := Plan.ofSource_eq_document hsource
  refine ⟨d, units, hd, hunits, htargets, ?_⟩
  obtain ⟨placed, hplaced, -⟩ := exists_placed_of_extract hunits
  rw [targets?_of_placed hplaced] at htargets
  have hchosen := map_toPlaced_targetsAmong source overwrite (placed.map Placed.point) [] placed
  rw [Option.some.inj htargets] at hchosen
  have hmap : (targets.map fun t => t.unit) = (targets.map Target.toPlaced).map Placed.unit := by
    rw [List.map_map]
    rfl
  rw [hmap, hchosen, ← map_unit_of_placed hplaced]
  exact List.filter_sublist.map Placed.unit

/-- The prompts for the targets of a plan ask for the comments of their units. -/
lemma forall₂_asksFor {disk : Entry} {path extension source : Text} {overwrite : Bool} {targets : List Target}
    (hplan : Plan.ofFile disk path overwrite = .ok (.document extension source targets)) :
    List.Forall₂ (fun (t : Target) p => p.AsksFor extension source t.unit) targets
      (targets.map fun t => t.unit.prompt extension source) := by
  obtain ⟨d, units, -, hunits, -, hsublist⟩ := sublist_of_document hplan
  rw [List.forall₂_map_right_iff, List.forall₂_same]
  intro t ht
  exact asksFor_prompt hunits (hsublist.subset (List.mem_map_of_mem ht)) extension

/-- Edits with one block for each target are the same but for the blocks. -/
lemma map_bare_editsWith {targets : List Target} {blocks : List Text} (h : blocks.length = targets.length) :
    (editsWith targets blocks).map Edit.bare = targets.map fun t => ⟨t.unit.name, t.point, t.replaceFrom, []⟩ := by
  induction targets generalizing blocks with
  | nil => rfl
  | cons t ts ih =>
    cases blocks with
    | nil => cases h
    | cons block blocks => exact congrArg _ (ih (Nat.succ.inj h))

/-- A run on a file without a plan to document leaves the session as it is, whatever the
generator. -/
lemma exists_annotateWith_eq {o : Options} {path : Text} {s : Session}
    (h : ∀ extension source targets, Plan.ofFile s.disk path o.overwrite ≠ .ok (.document extension source targets)) :
    ∃ result, ∀ g, s.annotateWith g o path = (result, s) := by
  cases hplan : Plan.ofFile s.disk path o.overwrite with
  | error f =>
    refine ⟨.error f, fun g => ?_⟩
    simp only [annotateWith, render, hplan]
  | ok plan =>
    cases plan with
    | skip reason =>
      refine ⟨.ok (.skipped reason), fun g => ?_⟩
      simp only [annotateWith, render, hplan]
    | document extension source targets => exact absurd hplan (h extension source targets)

/-- A run on a file with a new text comes to the decision about it. -/
lemma annotateWith_of_render {g : Option Generator} {o : Options} {path : Text} {s s' : Session} {r : Rendered}
    (h : s.render g o.overwrite path = (.ok (.rendered r), s')) : s.annotateWith g o path = s'.settle o r := by
  rw [annotateWith, h]

/-- A changed outcome counts the comments in the new text. -/
lemma count_of_annotateWith {g : Option Generator} {o : Options} {path : Text} {s : Session} {outcome : Outcome}
    (h : (s.annotateWith g o path).1 = .ok outcome) (hchanged : outcome.changed) :
    ∃ r, (s.render g o.overwrite path).1 = .ok (.rendered r) ∧ outcome.count = r.count := by
  have hrun := runsTo_annotateWith g o path s
  rw [h] at hrun
  generalize (s.annotateWith g o path).2 = s' at hrun
  cases hrun with
  | skipped => cases hchanged
  | undecided => cases hchanged
  | declined => cases hchanged
  | previewed hrender => exact ⟨_, hrender, rfl⟩
  | committed hrender => exact ⟨_, hrender, rfl⟩

/-- **A generator changes comments only**, whatever the disk, the configuration, the options, the
decisions and the replies are, and whatever writes the system refuses. The run on a file that asks
for a generator ends as the run that does not, also with a failure, but for the text it shows; the
work it reports, and the questions it puts but for the new text, are the same. The same edits are
made but for their blocks, with the same report.

If there is something to document, the generator, where one can be asked, gets one prompt for each
target in their order, which is that of the units in the source, and none for another unit. The
prompt is made of the name of the unit, the names of its parameters and its text in the source
(`Prompt.AsksFor`). The reply to it decides about the block of its target alone: that is the comment
in the reply, or the one that is made without a generator (`Target.blockFor`). The work is reported
from the first target to the last, out of as many as there are comments in the new text. Otherwise
nothing happens at all.

**Proof sketch.** Replies leave the disk and the decisions alone (`generates_editsFor`) and show in
no report (`filterMap_events_editsFor`), so both runs come to their decision in sessions that look
the same (`Looks.settle`). A reply depends on the replies before it only by their number
(`map_block_editsFor`, `replies_script`), and the report does not depend on blocks
(`report_eq_of_bare`). -/
theorem annotateFile_external (c : Config) (o : Options) (path : Text) (s : Session) :
    let on := s.annotateFile c { o with external := true } path
    let off := s.annotateFile c { o with external := false } path
    let g := s.generator? c { o with external := true }
    Except.map Outcome.bare on.1 = Except.map Outcome.bare off.1 ∧
    on.2.events.filterMap Event.outward? = off.2.events.filterMap Event.outward? ∧
    match Plan.ofFile s.disk path o.overwrite with
    | .ok (.document extension source targets) =>
      ∃ prompts : List Prompt,
      List.Forall₂ (fun (t : Target) p => p.AsksFor extension source t.unit) targets prompts ∧
      (∃ d units, Path.dialect? path = some d ∧ extract d source = .ok units ∧
        targets? source o.overwrite units = some targets ∧ (targets.map fun t => t.unit).Sublist units) ∧
      (∃ r r' : Rendered,
        (s.render g o.overwrite path).1 = .ok (.rendered r) ∧
        splice? source (editsWith targets (List.zipWith Target.blockFor targets (s.replies g prompts))) =
          some ⟨r.text, r.report⟩ ∧
        (s.render none o.overwrite path).1 = .ok (.rendered r') ∧
        splice? source (editsWith targets (targets.map Target.ownBlock)) = some ⟨r'.text, r'.report⟩ ∧
        r.report = r'.report ∧ r.count = targets.length) ∧
      (∀ outcome, on.1 = .ok outcome → outcome.changed → outcome.count = targets.length) ∧
      on.2.events.filterMap Event.prompt? =
        s.events.filterMap Event.prompt? ++ g.toList.flatMap (fun g => prompts.map fun p => (g, p)) ∧
      on.2.events.filterMap Event.progress? =
        s.events.filterMap Event.progress? ++
          (targets.zipIdx 1).map (fun (t, k) => (path, t.unit.name, k, targets.length)) ∧
      ∀ script, s.script = some script → g = some .script ∧
        s.replies g prompts = (List.range targets.length).map fun k => script.getD k .nothing
    | _ => on.2 = s ∧ off.2 = s := by
  intro on off g
  by_cases hplan : ∃ extension source targets, Plan.ofFile s.disk path o.overwrite =
      .ok (.document extension source targets)
  · obtain ⟨extension, source, targets, hplan⟩ := hplan
    obtain ⟨x, hx, hrender⟩ := render_of_document hplan g
    obtain ⟨x', hx', hrender'⟩ := render_of_document hplan none
    rw [blocksFor_none] at hx'
    have hlength := length_blocksFor g extension source targets s
    have hreport : x.report = x'.report := by
      apply report_eq_of_bare _ hx hx'
      rw [map_bare_editsWith hlength, map_bare_editsWith (List.length_map _)]
    have hcount : x.report.length = targets.length := by
      rw [length_report_splice? hx, editsWith, List.length_zipWith, hlength, Nat.min_self]
    have hchange : ∀ outcome, on.1 = .ok outcome → outcome.changed → outcome.count = targets.length := by
      intro outcome houtcome hchanged
      obtain ⟨r, hr, hcountr⟩ := count_of_annotateWith (g := g) houtcome hchanged
      rw [hrender] at hr
      obtain rfl : (⟨path, source, x.text, x.report⟩ : Rendered) = r := by simpa using hr
      exact hcountr.trans hcount
    -- the two sessions in which the new texts are decided about look the same
    have hon : on = _ := annotateWith_of_render (o := { o with external := true }) hrender
    have hoff : off = _ := annotateWith_of_render (o := { o with external := false }) hrender'
    obtain ⟨hresult, houtward⟩ := (looks_editsFor g path extension source targets.length 1 targets s).settle
      { o with external := true } ⟨path, source, x'.text, x'.report⟩ x.text
    rw [hreport] at hon
    simp only [hplan]
    rw [hon, hoff]
    refine ⟨hresult, houtward, targets.map fun t : Target => t.unit.prompt extension source, forall₂_asksFor hplan,
      sublist_of_document hplan,
      ⟨⟨path, source, x.text, x.report⟩, ⟨path, source, x'.text, x'.report⟩, ?_, hx, ?_, hx', hreport, hcount⟩,
      fun outcome => ?_, ?_, ?_, fun script hscript => ?_⟩
    · rw [hrender]
    · rw [hrender']
    · rw [← hon]
      exact hchange outcome
    · rw [filterMap_events_settle fun _ _ => rfl, prompts_editsFor]
      simp only [List.map_map]
      rfl
    · rw [filterMap_events_settle fun _ _ => rfl, progress_editsFor]
    · have hg : g = some .script := by simp [g, generator?, hscript]
      rw [hg, replies_script hscript, List.length_map]
      exact ⟨rfl, rfl⟩
  · obtain ⟨result, hresult⟩ := exists_annotateWith_eq (o := o) fun extension source targets h =>
      hplan ⟨extension, source, targets, h⟩
    have hon : on = (result, s) := hresult g
    have hoff : off = (result, s) := hresult none
    rw [hon, hoff]
    refine ⟨rfl, rfl, ?_⟩
    split
    · rename_i extension source targets h
      exact absurd ⟨extension, source, targets, h⟩ hplan
    · exact ⟨rfl, rfl⟩

/-- A reply without text costs the first of two functions its requested comment, and the second one
gets its own. Both were asked for. -/
theorem annotateFile_external_script :
    let source := "function f(){}\nfunction g(a,b){}".toList
    let s : Session := { Session.withFile "a.js".toList source with script := some [.nothing, .text "/** Two */".toList] }
    (∃ r, (s.render (some .script) false "a.js".toList).1 = .ok (.rendered r) ∧ r.count = 2 ∧
      r.text = "/**\n * Performs f\n */\nfunction f(){}\n/** Two */\nfunction g(a,b){}".toList) ∧
      (s.annotateFile default { external := true } "a.js".toList).2.events.filterMap Event.prompt? =
        [(.script, ⟨Prompt.instruction, "File extension: .js\nFunction name: f\nParameters: none\n\n".toList ++
            "Function code:\nfunction f(){}\n\nGenerate the JSDoc for this function.".toList⟩),
          (.script, ⟨Prompt.instruction, "File extension: .js\nFunction name: g\nParameters: a, b\n\n".toList ++
            "Function code:\nfunction g(a,b){}\n\nGenerate the JSDoc for this function.".toList⟩)] := by
  intro source s
  let targets : List Target :=
    [⟨⟨⟨"f".toList, .function, [], none, ⟨0, 14⟩, false, [], []⟩, 0, []⟩, 0⟩,
      ⟨⟨⟨"g".toList, .function, [⟨['a'], none, none⟩, ⟨['b'], none, none⟩], none, ⟨15, 32⟩, false, [], []⟩, 15, []⟩, 15⟩]
  have hplan : Plan.ofFile s.disk "a.js".toList false = .ok (.document "js".toList source targets) := by decide +kernel
  have h := annotateFile_external default {} "a.js".toList s
  simp only [hplan] at h
  obtain ⟨-, -, prompts, hasks, -, ⟨r, -, hr, hx, -, -, -, hcount⟩, -, hprompts, -, hreplies⟩ := h
  obtain ⟨-, hreplies⟩ := hreplies _ rfl
  rw [hreplies] at hx
  have htext : (splice? source (editsWith targets (List.zipWith Target.blockFor targets
      [.nothing, .text "/** Two */".toList]))).map Spliced.text =
        some "/**\n * Performs f\n */\nfunction f(){}\n/** Two */\nfunction g(a,b){}".toList := by
    decide +kernel
  have hsame := htext.symm.trans (congrArg (Option.map Spliced.text) hx)
  refine ⟨⟨r, hr, hcount, (Option.some.inj hsame).symm⟩, ?_⟩
  obtain ⟨p, rest, ⟨hsystem, code, hcode, huser⟩, hrest, rfl⟩ := List.forall₂_cons_left_iff.mp hasks
  obtain ⟨p', rest, ⟨hsystem', code', hcode', huser'⟩, hnone, rfl⟩ := List.forall₂_cons_left_iff.mp hrest
  obtain rfl := List.forall₂_nil_left_iff.mp hnone
  have hf : slice? source 0 14 = some "function f(){}".toList := by decide +kernel
  have hg : slice? source 15 32 = some "function g(a,b){}".toList := by decide +kernel
  obtain rfl := Option.some.inj (hf.symm.trans hcode)
  obtain rfl := Option.some.inj (hg.symm.trans hcode')
  rw [hprompts]
  refine congrArg₂ (fun p p' => [(Generator.script, p), (Generator.script, p')])
    (congrArg₂ Prompt.mk hsystem (huser.trans ?_)) (congrArg₂ Prompt.mk hsystem' (huser'.trans ?_))
  · decide +kernel
  · decide +kernel

end Session

end DocBlocks
