import DocBlocks.Proofs.Annotation.Committed

/-!
# Gated runs

A run on a file writes all of the new text or nothing. It writes only if that is not a preview, and
if the one who was asked about exactly this text agreed.

## Main definitions

* `Session.Keeps`: what stays from one session to another if nothing is written.
* `Session.Hears`: whether somebody was asked about a new text, if somebody was to be asked.
* `Session.RunsTo`: what a run on a file can come to.

## Main results

* `Session.runsTo_annotateWith`: a run comes to one of these.
* `Session.RunsTo.disk_cases`: a run changes nothing, or commits what rendering gives.
* `Session.annotateFile_gated`: what a run on a file writes, and what it tells.
-/

namespace DocBlocks

namespace Session

/-! ## Decisions -/

/-- What stays from one session to another if nothing is written: the disk, and that there are
replies written down. -/
structure Keeps (s s' : Session) : Prop where
  disk : s'.disk = s.disk
  script : s'.script.isSome = s.script.isSome

lemma Generates.keeps {s s' : Session} (h : s.Generates s') : s.Keeps s' := ⟨h.disk, h.script⟩

lemma Keeps.trans {s₁ s₂ s₃ : Session} (h : s₁.Keeps s₂) (h' : s₂.Keeps s₃) : s₁.Keeps s₃ :=
  ⟨h'.disk.trans h.disk, h'.script.trans h.script⟩

/-- Whether an answer is heard about the new text of a file: if somebody is to decide, one question
was put, and this was the answer. Otherwise there was no question. No file is written meanwhile. -/
structure Hears (o : Options) (r : Rendered) (answer : Bool) (s s' : Session) : Prop extends s.Keeps s' where
  refusals : s'.refusals = s.refusals
  asked : s'.questions = s.questions ++ if o.interactive then [(r.proposal o.preview, answer)] else []
  decided : o.interactive → ∃ answers, s.decisions = some answers ∧ answers.headD false = answer

lemma Generates.hears {o : Options} {r : Rendered} {answer : Bool} {s₁ s₂ s₃ : Session} (h : s₁.Generates s₂)
    (h' : s₂.Hears o r answer s₃) : s₁.Hears o r answer s₃ :=
  ⟨h.keeps.trans h'.toKeeps, h'.refusals.trans h.refusals, h.questions ▸ h'.asked, h.decisions ▸ h'.decided⟩

/-- One who decides, and agrees, has this decision ready. -/
lemma Hears.agreed {o : Options} {r : Rendered} {s s' : Session} (h : s.Hears o r true s') (hinteractive : o.interactive) :
    ∃ answers, s.decisions = some (true :: answers) := by
  obtain ⟨answers, hdecisions, hhead⟩ := h.decided hinteractive
  cases answers with
  | nil => cases hhead
  | cons answer answers => exact ⟨answers, by rw [hdecisions]; exact congrArg (fun a => some (a :: answers)) hhead⟩

/-- **A question** is put to the one who decides, if there is one, and answered by the next
decision. -/
lemma consult_cases {o : Options} (r : Rendered) (s : Session) (hinteractive : o.interactive) :
    s.decisions = none ∧ s.consult (r.proposal o.preview) = (none, s) ∨
      ∃ answer s', s.consult (r.proposal o.preview) = (some answer, s') ∧ s.Hears o r answer s' := by
  rw [consult]
  cases hdecisions : s.decisions with
  | none => exact .inl ⟨rfl, rfl⟩
  | some answers =>
    refine .inr ⟨answers.headD false, _, rfl, ⟨rfl, rfl⟩, rfl, ?_, fun _ => ⟨answers, hdecisions, rfl⟩⟩
    rw [if_pos hinteractive, questions, record, List.filterMap_append]
    rfl

/-! ## Runs -/

/-- What a run on a file can come to, with the session after it. -/
inductive RunsTo (g : Option Generator) (o : Options) (path : Text) (s : Session) :
    Except Failure Outcome → Session → Prop where
  | failed {s' : Session} {f : Failure} (hrender : (s.render g o.overwrite path).1 = .error f) (h : s.Generates s') :
      RunsTo g o path s (.error f) s'
  | skipped {s' : Session} {reason : Skip} (hrender : (s.render g o.overwrite path).1 = .ok (.skipped reason))
      (h : s.Keeps s') : RunsTo g o path s (.ok (.skipped reason)) s'
  | undecided {s' : Session} (hinteractive : o.interactive) (hdecisions : s.decisions = none) (h : s.Keeps s') :
      RunsTo g o path s (.ok .undecided) s'
  | declined {s' : Session} {r : Rendered} (hrender : (s.render g o.overwrite path).1 = .ok (.rendered r))
      (hinteractive : o.interactive) (h : s.Hears o r false s') : RunsTo g o path s (.ok .declined) s'
  | previewed {s' : Session} {r : Rendered} (hrender : (s.render g o.overwrite path).1 = .ok (.rendered r))
      (hpreview : o.preview) (h : s.Hears o r true s') : RunsTo g o path s (.ok (.previewed r.count r.text)) s'
  /-- The system does not let the new text be written. -/
  | refused {s' : Session} {r : Rendered} {e : Disk.Fault}
      (hrender : (s.render g o.overwrite path).1 = .ok (.rendered r)) (hpreview : o.preview = false)
      (h : s.Hears o r true s') (hrefusal : s.refusal = some e) :
      RunsTo g o path s (.error (.disk e)) { s' with refusals := s.refusals.tail }
  | committed {s' : Session} {r : Rendered} {disk : Entry}
      (hrender : (s.render g o.overwrite path).1 = .ok (.rendered r)) (hpreview : o.preview = false)
      (h : s.Hears o r true s') (hcommit : r.commit s.disk s.refusal = .ok disk) :
      RunsTo g o path s (.ok (.committed r.count)) { s' with disk := disk, refusals := s.refusals.tail }

section Run

variable {g : Option Generator} {o : Options} {path : Text} {s s' : Session} {r : Rendered}

/-- A rendering can be committed to the disk that it was made from, unless the system refuses. -/
lemma commit_eq_of_render (hrender : (s.render g o.overwrite path).1 = .ok (.rendered r)) (refusal : Option Disk.Fault) :
    r.commit s.disk refusal =
      match refusal with
      | some e => .error (.disk e)
      | none => .ok (s.disk.put (.text r.text) r.place) := by
  obtain ⟨rfl, hread, -⟩ := render_spec hrender
  rw [Rendered.commit_eq, hread]
  exact if_pos rfl

/-- A rendering can still be committed as long as no file has been written. -/
lemma commit_of_render (hrender : (s.render g o.overwrite path).1 = .ok (.rendered r)) (hdisk : s'.disk = s.disk)
    (hrefusals : s'.refusals = s.refusals) :
    s'.commit r =
      match s.refusal with
      | some e => (.error (.disk e), { s' with refusals := s.refusals.tail })
      | none => (.ok (), { s' with disk := s.disk.put (.text r.text) r.place, refusals := s.refusals.tail }) := by
  have hrefusal : s'.refusal = s.refusal := congrArg (List.headD · none) hrefusals
  have hcommit : r.commit s'.disk s'.refusal = r.commit s.disk s.refusal := by rw [hdisk, hrefusal]
  rw [commit, hcommit, commit_eq_of_render hrender, hrefusals]
  cases s.refusal <;> rfl

/-- A text that is not declined is shown or written, unless the system refuses. -/
lemma runsTo_finish (hrender : (s.render g o.overwrite path).1 = .ok (.rendered r)) (h : s.Hears o r true s') :
    RunsTo g o path s (s'.finish o r).1 (s'.finish o r).2 := by
  rw [finish]
  by_cases hpreview : o.preview
  · rw [if_pos hpreview]
    exact .previewed hrender hpreview h
  · rw [if_neg hpreview, commit_of_render hrender h.disk h.refusals]
    rw [Bool.not_eq_true] at hpreview
    have hcommit := commit_eq_of_render hrender s.refusal
    cases hrefusal : s.refusal with
    | some e => exact .refused hrender hpreview h hrefusal
    | none =>
      rw [hrefusal] at hcommit
      exact .committed hrender hpreview h (hrefusal ▸ hcommit)

/-- A new text is shown or written unless it is declined. -/
lemma runsTo_settle (hrender : (s.render g o.overwrite path).1 = .ok (.rendered r)) (hgenerates : s.Generates s') :
    RunsTo g o path s (s'.settle o r).1 (s'.settle o r).2 := by
  rw [settle]
  by_cases hinteractive : o.interactive
  · rw [if_pos hinteractive]
    obtain ⟨hdecisions, hconsult⟩ | ⟨answer, s'', hconsult, hhears⟩ := consult_cases r s' hinteractive
    · rw [hconsult]
      exact .undecided hinteractive (hgenerates.decisions ▸ hdecisions) hgenerates.keeps
    · rw [hconsult]
      cases answer with
      | false => exact .declined hrender hinteractive (hgenerates.hears hhears)
      | true => exact runsTo_finish hrender (hgenerates.hears hhears)
  · rw [if_neg hinteractive]
    have hhears : s'.Hears o r true s' :=
      ⟨⟨rfl, rfl⟩, rfl, by rw [if_neg hinteractive, List.append_nil], fun h => absurd h hinteractive⟩
    exact runsTo_finish hrender (hgenerates.hears hhears)

variable (g o path s) in
/-- **A run on a file** makes a new text, has it decided about, and shows or writes it. -/
lemma runsTo_annotateWith : RunsTo g o path s (s.annotateWith g o path).1 (s.annotateWith g o path).2 := by
  have hgenerates := s.generates_render g o.overwrite path
  rw [annotateWith]
  rcases hrender : s.render g o.overwrite path with ⟨(f | reason | r), s'⟩ <;> rw [hrender] at hgenerates
  · exact .failed (congrArg Prod.fst hrender) hgenerates
  · exact .skipped (congrArg Prod.fst hrender) hgenerates.keeps
  · exact runsTo_settle (congrArg Prod.fst hrender) hgenerates

/-- A run leaves replies written down if there were. -/
lemma RunsTo.script {result : Except Failure Outcome} (h : RunsTo g o path s result s') :
    s'.script.isSome = s.script.isSome := by
  cases h with
  | failed _ h => exact h.script
  | skipped _ h => exact h.script
  | undecided _ _ h => exact h.script
  | declined _ _ h => exact h.script
  | previewed _ _ h => exact h.script
  | refused _ _ h _ => exact h.script
  | committed _ _ h _ => exact h.script

/-- **What a run does to the disk** is nothing, or a commit of what rendering gives. -/
lemma RunsTo.disk_cases {result : Except Failure Outcome} (h : RunsTo g o path s result s') :
    s'.disk = s.disk ∨
      ∃ r, (s.render g o.overwrite path).1 = .ok (.rendered r) ∧ r.Commits s.disk s'.disk := by
  cases h with
  | failed _ h => exact .inl h.disk
  | skipped _ h => exact .inl h.disk
  | undecided _ _ h => exact .inl h.disk
  | declined _ _ h => exact .inl h.disk
  | previewed _ _ h => exact .inl h.disk
  | refused _ _ h _ => exact .inl h.disk
  | committed hrender _ _ hcommit => exact .inr ⟨_, hrender, (Rendered.commits_of_commit hcommit).2⟩

end Run

/-- **A run on a file writes all or nothing**, whatever the disk, the decisions and the replies are,
and whatever writes the system refuses. If it fails, or ends with anything but a new text that is
written, the disk is as it was. It fails where rendering fails, before anything is asked, and where
the system refuses the write, which nobody declined. A new text is written only if that is no
preview, and if the one who decides, where one is to decide, was asked once, about what the file
held and exactly what is written now, and agreed. There is a change exactly if units got comments,
and its text is told exactly if it was not written.

**Proof sketch.** By cases on what the run comes to (`runsTo_annotateWith`). A text is committed to
the disk it was made from, so its file holds the original (`render_spec`), only a refused write can
keep it from being written (`commit_eq_of_render`), and nothing else changes
(`Rendered.commits_of_commit`). -/
theorem annotateFile_gated (c : Config) (o : Options) (path : Text) (s : Session) :
    match (s.annotateFile c o path).1 with
    | .error f =>
      (s.annotateFile c o path).2.disk = s.disk ∧
        ((s.render (s.generator? c o) o.overwrite path).1 = .error f ∧
            (s.annotateFile c o path).2.questions = s.questions ∨
          o.preview = false ∧
            ∃ r e, (s.render (s.generator? c o) o.overwrite path).1 = .ok (.rendered r) ∧
              s.refusal = some e ∧ f = .disk e ∧
              (o.interactive → ∃ answers, s.decisions = some (true :: answers)) ∧
              (s.annotateFile c o path).2.questions =
                s.questions ++ if o.interactive then [(⟨path, r.report, r.original, r.text, false⟩, true)] else [])
    | .ok outcome =>
      (match outcome with
        | .committed n =>
          o.preview = false ∧ s.refusal = none ∧
            ∃ r, (s.render (s.generator? c o) o.overwrite path).1 = .ok (.rendered r) ∧ r.path = path ∧ n = r.count ∧
              Disk.locate s.disk path = .ok r.place ∧ s.disk.contentAt? r.place = some (.text r.original) ∧
              Entry.WrittenAt r.place r.text s.disk (s.annotateFile c o path).2.disk ∧
              (o.interactive → ∃ answers, s.decisions = some (true :: answers)) ∧
              (s.annotateFile c o path).2.questions =
                s.questions ++ if o.interactive then [(⟨path, r.report, r.original, r.text, false⟩, true)] else []
        | .previewed n t =>
          (s.annotateFile c o path).2.disk = s.disk ∧ o.preview ∧
            ∃ r, (s.render (s.generator? c o) o.overwrite path).1 = .ok (.rendered r) ∧ n = r.count ∧ t = r.text
        | .declined =>
          (s.annotateFile c o path).2.disk = s.disk ∧ o.interactive ∧
            ∃ r, (s.render (s.generator? c o) o.overwrite path).1 = .ok (.rendered r) ∧
              (s.annotateFile c o path).2.questions =
                s.questions ++ [(⟨path, r.report, r.original, r.text, o.preview⟩, false)]
        | .undecided => (s.annotateFile c o path).2.disk = s.disk ∧ o.interactive ∧ s.decisions = none
        | .skipped reason =>
          (s.annotateFile c o path).2.disk = s.disk ∧
            (s.render (s.generator? c o) o.overwrite path).1 = .ok (.skipped reason)) ∧
      (outcome.changed ↔ (∃ n t, outcome = .previewed n t) ∨ ∃ n, outcome = .committed n) ∧
      (outcome.changed ↔ 0 < outcome.count) ∧
      (outcome.text?.isSome ↔ ∃ n t, outcome = .previewed n t) := by
  have hrun := runsTo_annotateWith (s.generator? c o) o path s
  rw [← annotateFile] at hrun
  generalize (s.annotateFile c o path).1 = result, (s.annotateFile c o path).2 = s' at hrun ⊢
  cases hrun with
  | failed hrender h => exact ⟨h.disk, .inl ⟨hrender, h.questions⟩⟩
  | skipped hrender h => exact ⟨⟨h.disk, hrender⟩, by simp [Outcome.changed, Outcome.count, Outcome.text?]⟩
  | undecided hinteractive hdecisions h =>
    exact ⟨⟨h.disk, hinteractive, hdecisions⟩, by simp [Outcome.changed, Outcome.count, Outcome.text?]⟩
  | declined hrender hinteractive h =>
    obtain ⟨rfl, -, -⟩ := render_spec hrender
    have hasked := h.asked
    rw [if_pos hinteractive] at hasked
    exact ⟨⟨h.disk, hinteractive, _, hrender, hasked⟩, by simp [Outcome.changed, Outcome.count, Outcome.text?]⟩
  | previewed hrender hpreview h =>
    obtain ⟨-, -, hcount⟩ := render_spec hrender
    exact ⟨⟨h.disk, hpreview, _, hrender, rfl, rfl⟩,
      by simp [Outcome.changed, Outcome.count, Outcome.text?, hcount]⟩
  | refused hrender hpreview h hrefusal =>
    obtain ⟨rfl, -, -⟩ := render_spec hrender
    have hasked := h.asked
    rw [Rendered.proposal, hpreview] at hasked
    exact ⟨h.disk, .inr ⟨hpreview, _, _, hrender, hrefusal, rfl, h.agreed, hasked⟩⟩
  | committed hrender hpreview h hcommit =>
    obtain ⟨rfl, hread, hcount⟩ := render_spec hrender
    obtain ⟨hlocate, hcontent⟩ := Disk.read_eq_ok_iff.mp hread
    obtain ⟨hrefusal, hcommits⟩ := Rendered.commits_of_commit hcommit
    have hasked := h.asked
    rw [Rendered.proposal, hpreview] at hasked
    exact ⟨⟨hpreview, hrefusal, _, hrender, rfl, rfl, hlocate, hcontent, hcommits.written, h.agreed, hasked⟩,
      by simp [Outcome.changed, Outcome.count, Outcome.text?, hcount]⟩

end Session

end DocBlocks
