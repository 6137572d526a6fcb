import DocBlocks.Proofs.Annotation.Gated

/-!
# Previews

A preview and a run that writes go the same way until the new text is shown or written. All that
tells them apart before is a mark on the question to the one who decides.

## Main definitions

* `Event.SameButMark`: records of events that differ by the mark of a preview in the last question.
* `Session.Matches`: sessions that differ by such records only.
* `Session.Told`: what a preview comes to, against what the run that writes comes to.
* `Session.Foretells`: a preview against the run that writes.

## Main results

* `Session.foretells_finish`, `Session.foretells_settle`: from the same new text on.
* `Session.annotateFile_preview`: a preview shows what a run writes.
-/

namespace DocBlocks

/-- Whether two records of events are the same, or differ only in that the last question, put to the
one who decides and answered alike, is marked as one about a preview in the first. -/
inductive Event.SameButMark : List Event → List Event → Prop where
  | same (es : List Event) : SameButMark es es
  | marked (es : List Event) (p : Proposal) (answer : Bool) :
      SameButMark (es ++ [.decided { p with preview := true } answer])
        (es ++ [.decided { p with preview := false } answer])

namespace Session

/-- Whether a session of a preview is that of the run that writes, up to the mark of the preview. -/
structure Matches (shown real : Session) : Prop where
  disk : shown.disk = real.disk
  script : shown.script = real.script
  answers : shown.answers = real.answers
  decisions : shown.decisions = real.decisions
  events : Event.SameButMark shown.events real.events

/-- What a preview comes to, against what the run that writes comes to and the disk after it, where
the system has `refusal` against the write. -/
inductive Told (path : Text) (before : Entry) (refusal : Option Disk.Fault) :
    Except Failure Outcome → Except Failure Outcome → Entry → Prop where
  /-- Both fail alike. -/
  | failed (f : Failure) : Told path before refusal (.error f) (.error f) before
  /-- There is no new text, or it is not accepted. -/
  | unchanged {outcome : Outcome} (h : outcome.changed = false) :
      Told path before refusal (.ok outcome) (.ok outcome) before
  /-- The text that is shown is that which the file holds after the other run, which writes nothing
  else. -/
  | written {n : Nat} {t : Text} {after : Entry} (hrefusal : refusal = none) (hread : Disk.read after path = .ok t)
      (hwritten : Entry.WrittenAt (Disk.placeOf path) t before after) :
      Told path before refusal (.ok (.previewed n t)) (.ok (.committed n)) after
  /-- The text is shown, and the system does not let the other run write it. -/
  | refused {n : Nat} {t : Text} {e : Disk.Fault} (hrefusal : refusal = some e) :
      Told path before refusal (.ok (.previewed n t)) (.error (.disk e)) before

/-- Whether a preview tells what the run comes to that writes and starts from the same session: the
disk stays as it is, the events are the same, and so is what is left of replies, answers and
decisions. -/
structure Foretells (s : Session) (path : Text) (shown real : Except Failure Outcome × Session) : Prop where
  disk : shown.2.disk = s.disk
  script : shown.2.script = real.2.script
  answers : shown.2.answers = real.2.answers
  decisions : shown.2.decisions = real.2.decisions
  events : Event.SameButMark shown.2.events real.2.events
  result : Told path s.disk s.refusal shown.1 real.1 real.2.disk

lemma Matches.refl (s : Session) : s.Matches s := ⟨rfl, rfl, rfl, rfl, .same s.events⟩

/-- Runs that end alike and leave the disk as it is. -/
lemma Matches.foretells {s shown real : Session} {path : Text} {result : Except Failure Outcome}
    (h : shown.Matches real) (hdisk : real.disk = s.disk)
    (hresult : ∀ outcome, result = .ok outcome → outcome.changed = false) :
    s.Foretells path (result, shown) (result, real) := by
  refine ⟨h.disk.trans hdisk, h.script, h.answers, h.decisions, h.events, ?_⟩
  simp only [hdisk]
  cases result with
  | error f => exact .failed f
  | ok outcome => exact .unchanged (hresult outcome rfl)

/-- **Questions** about a new text are answered alike, whether it is to be written or not. -/
lemma matches_consult (r : Rendered) (s : Session) :
    (s.consult (r.proposal true)).1 = (s.consult (r.proposal false)).1 ∧
      (s.consult (r.proposal true)).2.Matches (s.consult (r.proposal false)).2 := by
  rw [consult, consult]
  cases s.decisions with
  | none => exact ⟨rfl, .refl s⟩
  | some answers =>
    exact ⟨rfl, rfl, rfl, rfl, rfl, .marked s.events (r.proposal false) (answers.headD false)⟩

section Run

variable {g : Option Generator} {path : Text} {s : Session} {r : Rendered}

/-- **The last step**: one run shows the text, the other writes it. -/
lemma foretells_finish (o : Options) {shown real : Session}
    (hrender : (s.render g o.overwrite path).1 = .ok (.rendered r)) (h : shown.Matches real)
    (hdisk : real.disk = s.disk) (hrefusals : real.refusals = s.refusals) :
    s.Foretells path (shown.finish { o with preview := true } r) (real.finish { o with preview := false } r) := by
  obtain ⟨rfl, -, -⟩ := render_spec hrender
  have hshown : shown.finish { o with preview := true } r = (.ok (.previewed r.count r.text), shown) := if_pos rfl
  have hcommit := commit_eq_of_render hrender none
  rw [hshown, finish, if_neg Bool.false_ne_true, commit_of_render hrender hdisk hrefusals]
  cases hrefusal : s.refusal with
  | none =>
    have hcommits := (Rendered.commits_of_commit hcommit).2
    exact ⟨h.disk.trans hdisk, h.script, h.answers, h.decisions, h.events,
      .written hrefusal (Disk.read_of_writtenAt hcommits.located hcommits.written) hcommits.written⟩
  | some e => exact ⟨h.disk.trans hdisk, h.script, h.answers, h.decisions, h.events, hdisk ▸ .refused hrefusal⟩

/-- **From the same new text on**, both runs have it decided about alike. -/
lemma foretells_settle (o : Options) {s' : Session}
    (hrender : (s.render g o.overwrite path).1 = .ok (.rendered r)) (h : s.Generates s') :
    s.Foretells path (s'.settle { o with preview := true } r) (s'.settle { o with preview := false } r) := by
  rw [settle, settle]
  by_cases hinteractive : o.interactive
  · rw [if_pos hinteractive, if_pos hinteractive]
    have hkeeps : (s'.consult (r.proposal false)).2.disk = s'.disk ∧
        (s'.consult (r.proposal false)).2.refusals = s'.refusals := by
      rw [consult]
      cases s'.decisions <;> exact ⟨rfl, rfl⟩
    obtain ⟨hanswer, hmatches⟩ := matches_consult r s'
    rcases hshown : s'.consult (r.proposal true) with ⟨answer, shown⟩
    rcases hreal : s'.consult (r.proposal false) with ⟨answer', real⟩
    rw [hshown, hreal] at hmatches hanswer
    rw [hreal] at hkeeps
    obtain rfl : answer = answer' := hanswer
    have hdisk : real.disk = s.disk := hkeeps.1.trans h.disk
    cases answer with
    | none => exact hmatches.foretells hdisk (by rintro _ ⟨⟩; rfl)
    | some accepted =>
      cases accepted with
      | false => exact hmatches.foretells hdisk (by rintro _ ⟨⟩; rfl)
      | true => exact foretells_finish o hrender hmatches hdisk (hkeeps.2.trans h.refusals)
  · rw [if_neg hinteractive, if_neg hinteractive]
    exact foretells_finish o hrender (.refl s') h.disk h.refusals

end Run

/-- **A preview shows exactly what a run writes**, whatever the disk, the options, the replies, the
answers of servers and the decisions are. If a run that writes is made from the same session, either
both fail with the same failure, or both end alike without a new text that is accepted, and the disk
stays as it is; or the preview shows a text, the other run commits as many comments, and then the
file holds this text, while all other files are as they were. Only where the system refuses the
write does the other run fail, and the disk stays as it is. The preview itself changes nothing on
the disk. What is told about the work, the prompts to generators and the requests to services are
the same in both runs, and so is the question to the one who decides, except that it says whether it
is about a preview.

**Proof sketch.** No generator and no rendering depends on whether a run is a preview, so both runs
get to the same new text in the same session. From there the sessions match (`matches_consult`)
until the last step (`foretells_finish`), where the commit finds the file as rendering did
(`commit_eq_of_render`), and what it writes is read back (`Disk.read_of_writtenAt`). -/
theorem annotateFile_preview (c : Config) (o : Options) (path : Text) (s : Session) :
    s.Foretells path (s.annotateFile c { o with preview := true } path)
      (s.annotateFile c { o with preview := false } path) := by
  rw [annotateFile, annotateFile]
  change s.Foretells path (s.annotateWith (s.generator? c o) _ path) (s.annotateWith (s.generator? c o) _ path)
  have hgenerates := s.generates_render (s.generator? c o) o.overwrite path
  rw [annotateWith, annotateWith]
  simp only
  rcases hrender : s.render (s.generator? c o) o.overwrite path with ⟨(f | reason | r), s'⟩ <;>
    rw [hrender] at hgenerates
  · exact (Matches.refl s').foretells hgenerates.disk (by rintro _ ⟨⟩)
  · exact (Matches.refl s').foretells hgenerates.disk (by rintro _ ⟨⟩; rfl)
  · exact foretells_settle o (congrArg Prod.fst hrender) hgenerates

end Session

end DocBlocks
