import DocBlocks.Annotation.FileRun
import DocBlocks.Proofs.Annotation.Planned
import DocBlocks.Proofs.Disk.Located
import DocBlocks.Proofs.Splice.Weave

/-!
# Commits of renderings

While a new text is made, nothing but the record of prompts and replies changes. When it is written,
the file has the fingerprint of the text that the new one was made from, and no other file changes.

## Main definitions

* `Session.questions`: the questions that were put to somebody, with the answers.
* `Session.Generates`: what stays while text is generated.
* `Rendered.place`: the place of the file of a rendering.
* `Rendered.Commits`: what a commit does to a disk.
* `Rendered.Fails`: what a commit that fails ends in.

## Main results

* `Session.generates_render`: rendering changes neither the disk nor the decisions to come.
* `Session.render_spec`: a rendering is made from what the file holds, and has edits.
* `Rendered.commit_eq`: when a commit succeeds, and how it fails.
* `Rendered.commits_of_commit`: a commit changes the file of its rendering only.
-/

namespace DocBlocks

open Text

/-! ## Generated text -/

/-- The question in an event, with its answer. -/
def Event.question? : Event → Option (Proposal × Bool)
  | decided p answer => some (p, answer)
  | _ => none

namespace Session

/-- The questions about changes that were put to somebody, with the answers. -/
def questions (s : Session) : List (Proposal × Bool) := s.events.filterMap Event.question?

/-- What stays from one session to another if only text is generated in between. -/
structure Generates (s s' : Session) : Prop where
  disk : s'.disk = s.disk
  decisions : s'.decisions = s.decisions
  questions : s'.questions = s.questions
  /-- If there are replies written down, there still are, maybe fewer of them. -/
  script : s'.script.isSome = s.script.isSome
  refusals : s'.refusals = s.refusals
  closed : s'.closed = s.closed

lemma Generates.refl (s : Session) : s.Generates s := ⟨rfl, rfl, rfl, rfl, rfl, rfl⟩

lemma Generates.trans {s₁ s₂ s₃ : Session} (h : s₁.Generates s₂) (h' : s₂.Generates s₃) : s₁.Generates s₃ :=
  ⟨h'.disk.trans h.disk, h'.decisions.trans h.decisions, h'.questions.trans h.questions, h'.script.trans h.script,
    h'.refusals.trans h.refusals, h'.closed.trans h.closed⟩

section Generated

variable (s : Session)

lemma generates_record {e : Event} (h : e.question? = none) : s.Generates (s.record e) := by
  refine ⟨rfl, rfl, ?_, rfl, rfl, rfl⟩
  rw [questions, record, List.filterMap_append, List.filterMap_cons_none h, List.filterMap_nil, List.append_nil]
  rfl

lemma generates_nextReply : s.Generates s.nextReply.2 := by
  rw [nextReply]
  split
  · rename_i hscript
    exact ⟨rfl, rfl, rfl, by rw [hscript]; rfl, rfl, rfl⟩
  · exact .refl s

lemma generates_askService (settings : Settings) (p : Prompt) : s.Generates (s.askService settings p).2 := by
  rw [askService]
  split
  · exact .refl s
  · split
    · exact .refl s
    · rename_i rest _
      have hanswers : s.Generates { s with answers := rest } := ⟨rfl, rfl, rfl, rfl, rfl, rfl⟩
      exact hanswers.trans (generates_record _ rfl)

/-- Asking a generator generates text only. -/
lemma generates_ask (g : Generator) (p : Prompt) : s.Generates (s.ask g p).2 := by
  have hrecord := s.generates_record (e := .prompted g p) rfl
  cases g with
  | script => exact hrecord.trans (generates_nextReply _)
  | service settings => exact hrecord.trans (generates_askService _ settings p)

lemma generates_describe (g : Option Generator) (extension source : Text) (u : CodeUnit) (indent : Text) :
    s.Generates (s.describe g extension source u indent).2 := by
  cases g with
  | none => exact .refl s
  | some g => exact s.generates_ask g _

lemma generates_editFor (g : Option Generator) (path extension source : Text) (total index : Nat) (t : Target) :
    s.Generates (s.editFor g path extension source total index t).2 :=
  (s.generates_record rfl).trans (generates_describe _ g extension source _ t.indent)

lemma generates_editsFor (g : Option Generator) (path extension source : Text) (total index : Nat)
    (targets : List Target) : s.Generates (s.editsFor g path extension source total index targets).2 := by
  induction targets generalizing s index with
  | nil => exact .refl s
  | cons t ts ih => exact (s.generates_editFor g path extension source total index t).trans (ih _ _)

/-- **Rendering generates text only**: neither the disk nor the decisions to come change. -/
lemma generates_render (g : Option Generator) (overwrite : Bool) (path : Text) :
    s.Generates (s.render g overwrite path).2 := by
  rw [render]
  split
  · exact .refl s
  · exact .refl s
  · rename_i extension source targets _
    have hedits := s.generates_editsFor g path extension source targets.length 1 targets
    simp only
    split <;> exact hedits

end Generated

end Session

/-! ## Renderings -/

/-- A plan to document is made for what the file holds, and has targets. -/
lemma Plan.ofFile_eq_document {disk : Entry} {path extension source : Text} {overwrite : Bool} {targets : List Target}
    (h : Plan.ofFile disk path overwrite = .ok (.document extension source targets)) :
    Disk.read disk path = .ok source ∧ targets ≠ [] := by
  obtain ⟨d, source', -, hread, hsource⟩ := Plan.ofFile_eq_ok h (by simp)
  obtain ⟨rfl, units, hunits, hne, htargets⟩ := Plan.ofSource_eq_document hsource
  refine ⟨hread, ?_⟩
  rintro rfl
  rw [Plan.ofSource_eq_documented_iff.mpr ⟨units, hunits, hne, htargets⟩] at hsource
  cases hsource

/-- **A rendering** is made from what the file holds, and has at least one edit. -/
lemma Session.render_spec {s : Session} {g : Option Generator} {overwrite : Bool} {path : Text} {r : Rendered}
    (h : (s.render g overwrite path).1 = .ok (.rendered r)) :
    r.path = path ∧ Disk.read s.disk path = .ok r.original ∧ 0 < r.count := by
  rw [Session.render] at h
  split at h
  · cases h
  · cases h
  · rename_i extension source targets hplan
    obtain ⟨hread, htargets⟩ := Plan.ofFile_eq_document hplan
    simp only at h
    split at h
    · cases h
    · rename_i spliced hsplice
      obtain rfl : (⟨path, source, spliced.text, spliced.report⟩ : Rendered) = r := by simpa using h
      refine ⟨rfl, hread, ?_⟩
      have hplaces := congrArg List.length (s.map_editsFor g path extension source targets.length targets 1)
      rw [List.length_map, List.length_map] at hplaces
      rw [Rendered.count, Splice.length_report_splice? hsplice, hplaces]
      exact List.length_pos_of_ne_nil htargets

/-! ## Commits -/

namespace Rendered

/-- The place of the file that a rendering is made for. -/
def place (r : Rendered) : Place := Disk.placeOf r.path

/-- Whether a commit of a rendering makes one disk of another: the file is there with the
fingerprint of the original, and only it changes. -/
structure Commits (r : Rendered) (before after : Entry) : Prop where
  located : Disk.locate before r.path = .ok r.place
  found : ∃ content, before.contentAt? r.place = some (.text content) ∧ DocBlocks.fingerprint content = r.fingerprint
  written : Entry.WrittenAt r.place r.text before after

/-- **A commit** fails if the file cannot be read, if its fingerprint is not that of the original,
or if the system refuses the write. Otherwise it writes the text in place of the file. -/
lemma commit_eq (r : Rendered) (disk : Entry) (refusal : Option Disk.Fault) :
    r.commit disk refusal =
      match Disk.read disk r.path with
      | .error f => .error (.disk f)
      | .ok content =>
        if DocBlocks.fingerprint content = r.fingerprint then
          match refusal with
          | some f => .error (.disk f)
          | none => .ok (disk.put (.text r.text) r.place)
        else .error (.changed ⟨r.fingerprint, DocBlocks.fingerprint content⟩) := by
  rw [commit]
  cases hread : Disk.read disk r.path with
  | error f => rfl
  | ok content =>
    obtain ⟨hlocate, hcontent⟩ := Disk.read_eq_ok_iff.mp hread
    by_cases hfingerprint : DocBlocks.fingerprint content = r.fingerprint
    · simp only [ensureUnchanged, if_pos hfingerprint, Disk.write_eq hlocate hcontent]
      cases refusal <;> rfl
    · simp only [ensureUnchanged, if_neg hfingerprint]

/-- Whether a failure is what a commit of a rendering ends in: the file cannot be read, it has
another fingerprint, or it has the one of the original and the system refuses the write. -/
def Fails (r : Rendered) (disk : Entry) (refusal : Option Disk.Fault) (f : Failure) : Prop :=
  (∃ e, Disk.read disk r.path = .error e ∧ f = .disk e) ∨
    (∃ content, Disk.read disk r.path = .ok content ∧ DocBlocks.fingerprint content ≠ r.fingerprint ∧
      f = .changed ⟨r.fingerprint, DocBlocks.fingerprint content⟩) ∨
    ∃ content e, Disk.read disk r.path = .ok content ∧ DocBlocks.fingerprint content = r.fingerprint ∧
      refusal = some e ∧ f = .disk e

/-- **A commit that fails** could not read the file, found another fingerprint, or was refused the
write. -/
lemma fails_of_commit {r : Rendered} {disk : Entry} {refusal : Option Disk.Fault} {f : Failure}
    (h : r.commit disk refusal = .error f) : r.Fails disk refusal f := by
  rw [commit_eq] at h
  cases hread : Disk.read disk r.path with
  | error e =>
    simp only [hread] at h
    exact .inl ⟨e, hread, (Except.error.inj h).symm⟩
  | ok content =>
    simp only [hread] at h
    split at h
    · rename_i hsame
      cases refusal with
      | none => cases h
      | some e => exact .inr (.inr ⟨content, e, hread, hsame, rfl, (Except.error.inj h).symm⟩)
    · rename_i hother
      exact .inr (.inl ⟨content, hread, hother, (Except.error.inj h).symm⟩)

/-- **What a commit changes** is the file of its rendering, and only where the write is not
refused. -/
lemma commits_of_commit {r : Rendered} {disk disk' : Entry} {refusal : Option Disk.Fault}
    (h : r.commit disk refusal = .ok disk') : refusal = none ∧ r.Commits disk disk' := by
  rw [commit_eq] at h
  cases hread : Disk.read disk r.path with
  | error f => simp [hread] at h
  | ok content =>
    obtain ⟨hlocate, hcontent⟩ := Disk.read_eq_ok_iff.mp hread
    simp only [hread] at h
    split at h
    · rename_i hfingerprint
      cases refusal with
      | some e => cases h
      | none =>
        obtain rfl := Except.ok.inj h
        exact ⟨rfl, hlocate, ⟨content, hcontent, hfingerprint⟩, Entry.writtenAt_put hcontent r.text⟩
    · cases h

end Rendered

end DocBlocks
