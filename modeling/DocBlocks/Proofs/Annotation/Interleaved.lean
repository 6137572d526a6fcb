import DocBlocks.Annotation.Workbench
import DocBlocks.Proofs.Annotation.Gated
import Mathlib.Data.Set.Function
import Mathlib.Logic.Relation

/-!
# Interleaved work

Renderings wait in slots while others write, remove and commit. A commit goes through only if the
file has the fingerprint of the text that the rendering was made from, so what others wrote in
between is not lost.

## Main definitions

* `Replaced`: whether a disk comes from a commit that found the text that the rendering was made
  from.
* `Workbench.after`: the state after some steps.
* `Workbench.attempted`: the state after an attempt to write a file.
* `Workbench.Made`: whether a rendering in a slot comes from one of some steps.
* `Workbench.textsDuring`: the texts that files hold in the course of some steps.

## Main results

* `Workbench.mem_slots_step`: what one step does to the slots.
* `Workbench.made_of_mem_slots`: every rendering in a slot was made from what its file held at that
  time.
* `Session.replaced_annotateFile`, `Session.replaced_annotateFolder`: runs change the disk by such
  commits only.
* `Workbench.commit_after`: commits in the course of any steps.
-/

namespace DocBlocks

/-! ## Runs -/

/-- Whether a disk is another one after a commit that found the text that its rendering was made
from. -/
def Replaced (before after : Entry) : Prop :=
  ∃ r : Rendered, r.Commits before after ∧ before.contentAt? r.place = some (.text r.original)

namespace Session

open Relation

/-- A run changes the disk by at most one commit, and that finds the text that its rendering was
made from. -/
lemma RunsTo.replaced {g : Option Generator} {o : Options} {path : Text} {s s' : Session}
    {result : Except Failure Outcome} (h : RunsTo g o path s result s') : ReflTransGen Replaced s.disk s'.disk := by
  obtain hdisk | ⟨r, hrender, hcommits⟩ := h.disk_cases
  · exact hdisk ▸ .refl
  · obtain ⟨rfl, hread, -⟩ := render_spec hrender
    exact .single ⟨r, hcommits, (Disk.read_eq_ok_iff.mp hread).2⟩

lemma replaced_annotateFile (c : Config) (o : Options) (path : Text) (s : Session) :
    ReflTransGen Replaced s.disk (s.annotateFile c o path).2.disk :=
  (runsTo_annotateWith _ o path s).replaced

lemma replaced_visit (g : Option Generator) (o : Options) (folder : Text) (stops : List Disk.Stop) (run : FolderRun)
    (s : Session) : ReflTransGen Replaced s.disk (s.visit g o folder stops run).2.disk := by
  induction stops generalizing run s with
  | nil => exact .refl
  | cons stop stops ih =>
    cases stop with
    | closed place f => exact ih _ s
    | file place =>
      rw [visit]
      simp only
      split
      · exact (runsTo_annotateWith g o (Path.below folder place) s).replaced.trans (ih _ _)
      · exact ih run s

lemma replaced_annotateFolder (c : Config) (o : Options) (path : Text) (s : Session) :
    ReflTransGen Replaced s.disk (s.annotateFolder c o path).2.disk := by
  rw [annotateFolder]
  split
  · exact replaced_visit _ o path _ {} s
  · exact .refl

end Session

/-! ## Steps -/

namespace Workbench

/-- The state after some steps. -/
def after (b : Workbench) (steps : List Step) : Workbench := steps.foldl (fun b x => (b.step x).2) b

variable {b : Workbench} {steps : List Step} {slot : Text} {r : Rendered}

lemma after_append (b : Workbench) (steps more : List Step) : b.after (steps ++ more) = (b.after steps).after more :=
  List.foldl_append

/-- Whether a rendering in a slot comes from one of some steps, and was made from what its file held
at that time. -/
def Made (b : Workbench) (steps : List Step) (slot : Text) (r : Rendered) : Prop :=
  ∃ before o rest, steps = before ++ .render slot r.path o :: rest ∧
    ((b.after before).session.render ((b.after before).session.generator? (b.after before).config o) o.overwrite
      r.path).1 = .ok (.rendered r) ∧
    (b.after before).session.disk.contentAt? r.place = some (.text r.original)

lemma Made.append (h : b.Made steps slot r) (more : List Step) : b.Made (steps ++ more) slot r := by
  obtain ⟨before, o, rest, rfl, hmade⟩ := h
  exact ⟨before, o, rest ++ more, by simp, hmade⟩

/-- **One step** leaves the slots as they are, except that a rendering is added to a slot by a step
that makes it. -/
lemma mem_slots_step {x : Step} (h : (slot, r) ∈ (b.step x).2.slots) : (slot, r) ∈ b.slots ∨ b.Made [x] slot r := by
  cases x with
  | write path content => exact .inl h
  | makeFolder path => exact .inl h
  | remove path => exact .inl h
  | render slot' path o =>
    rw [step] at h
    simp only at h
    rcases hrender : (b.session.render (b.session.generator? b.config o) o.overwrite path).1 with f | reason | r'
    · rw [hrender] at h
      exact .inl h
    · rw [hrender] at h
      exact .inl h
    · rw [hrender, keep] at h
      obtain heq | h := List.mem_cons.mp h
      · obtain ⟨rfl, rfl⟩ := Prod.mk.inj heq
        obtain ⟨rfl, hread, -⟩ := Session.render_spec hrender
        exact .inr ⟨[], o, [], rfl, hrender, (Disk.read_eq_ok_iff.mp hread).2⟩
      · exact .inl h
  | commit slot' =>
    rw [step] at h
    split at h <;> exact .inl h
  | annotateFile path o => exact .inl h
  | annotateFolder path o => exact .inl h

/-- **Every rendering in a slot** was made by one of the steps, from what its file held at that
time. -/
lemma made_of_mem_slots (hb : b.slots = []) (h : (slot, r) ∈ (b.after steps).slots) : b.Made steps slot r := by
  induction steps using List.reverseRecOn with
  | nil => simp [after, hb] at h
  | append_singleton steps x ih =>
    rw [after_append] at h
    obtain h | ⟨before, o, rest, hsteps, hmade⟩ := mem_slots_step h
    · exact (ih h).append [x]
    · refine ⟨steps ++ before, o, rest, by rw [hsteps, List.append_assoc], ?_⟩
      rw [after_append]
      exact hmade

/-- The rendering that counts in a slot was made by one of the steps. -/
lemma made_of_lookup (hb : b.slots = []) (h : (b.after steps).slots.lookup slot = some r) : b.Made steps slot r := by
  obtain ⟨front, back, hslots, -⟩ := List.lookup_eq_some_iff.mp h
  exact made_of_mem_slots hb (by rw [hslots]; simp)

/-! ## Commits -/

/-- The texts that files hold in the course of some steps. -/
def textsDuring (b : Workbench) (steps : List Step) : Set Text :=
  {t | ∃ before rest place, steps = before ++ rest ∧ (b.after before).session.disk.contentAt? place = some (.text t)}

lemma mem_textsDuring_self {place : Place} {t : Text}
    (h : (b.after steps).session.disk.contentAt? place = some (.text t)) : t ∈ b.textsDuring steps :=
  ⟨steps, [], place, (List.append_nil steps).symm, h⟩

lemma Made.original_mem (h : b.Made steps slot r) : r.original ∈ b.textsDuring steps := by
  obtain ⟨before, o, rest, rfl, -, hcontent⟩ := h
  exact ⟨before, _, r.place, rfl, hcontent⟩

/-- The workbench after an attempt to write a file, with the disk that it left. -/
def attempted (b : Workbench) (disk : Entry) : Workbench :=
  { b with session := { b.session with disk := disk, refusals := b.session.refusals.tail } }

/-- **A commit of a slot** commits the rendering in it, or leaves the disk and the slots as they
are. -/
lemma step_commit (b : Workbench) (slot : Text) :
    b.step (.commit slot) =
      match b.slots.lookup slot with
      | none => (.emptySlot, b)
      | some r =>
        match r.commit b.session.disk b.session.refusal with
        | .error f => (.commit (.error f), b.attempted b.session.disk)
        | .ok disk => (.commit (.ok ()), b.attempted disk) := by
  rw [step]
  cases b.slots.lookup slot with
  | none => rfl
  | some r =>
    simp only [Session.commit]
    cases r.commit b.session.disk b.session.refusal <;> rfl

/-- A commit that succeeds commits the rendering in its slot. -/
lemma commits_of_step_commit (h : (b.step (.commit slot)).1 = .commit (.ok ())) :
    ∃ r, b.slots.lookup slot = some r ∧ r.Commits b.session.disk (b.step (.commit slot)).2.session.disk := by
  rw [step_commit] at h ⊢
  cases hslot : b.slots.lookup slot with
  | none => simp [hslot] at h
  | some r =>
    simp only [hslot] at h ⊢
    cases hcommit : r.commit b.session.disk b.session.refusal with
    | error f => simp [hcommit] at h
    | ok disk => exact ⟨r, rfl, (Rendered.commits_of_commit hcommit).2⟩

/-- **A commit finds the original** if no two texts of the work have one fingerprint. -/
lemma original_of_commits {disk : Entry} (hmade : b.Made steps slot r)
    (hcommits : r.Commits (b.after steps).session.disk disk)
    (hfingerprint : Set.InjOn fingerprint (b.textsDuring steps)) :
    (b.after steps).session.disk.contentAt? r.place = some (.text r.original) := by
  obtain ⟨content, hcontent, hsame⟩ := hcommits.found
  rw [hcontent, hfingerprint (mem_textsDuring_self hcontent) hmade.original_mem hsame]

/-- What does not hold at first and holds after some steps comes to hold by one of them. -/
lemma exists_step {P : Workbench → Prop} {more : List Step} (hbefore : ¬P (b.after steps))
    (hafter : P (b.after (steps ++ more))) :
    ∃ first x rest, more = first ++ x :: rest ∧ ¬P (b.after (steps ++ first)) ∧ P (b.after (steps ++ first ++ [x])) := by
  induction more using List.reverseRecOn with
  | nil => exact absurd (by simpa using hafter) hbefore
  | append_singleton more x ih =>
    by_cases h : P (b.after (steps ++ more))
    · obtain ⟨first, y, rest, rfl, hfirst⟩ := ih h
      exact ⟨first, y, rest ++ [x], by simp, hfirst⟩
    · exact ⟨more, x, [], rfl, h, by rwa [List.append_assoc]⟩

/-- The state before any work. -/
def start (c : Config) (s : Session) : Workbench := ⟨c, s, []⟩

/-- **No update is lost**, whatever steps are made in whatever order.

* A commit of a slot that succeeds finds a file with the fingerprint of what its rendering was made
  from, and leaves there the text of the rendering; no other file changes. If no two texts of the
  work have one fingerprint, it finds exactly what the rendering was made from. A commit fails if
  the file cannot be read, if it has another fingerprint, or if the system refuses the write, and
  then it changes nothing.
* A run on a file or on a folder changes the disk by commits only that find what their renderings
  were made from.
* Of two commits to one file of renderings made from one text, the second finds this text again and
  leaves its own; if the first left another text, some step in between has put the text back.

**Proof sketch.** What is in a slot was made by one of the steps from what its file held then
(`made_of_mem_slots`), so what the rendering was made from is a text of the work
(`Made.original_mem`). -/
theorem commit_after (c : Config) (s : Session) (steps : List Step) :
    let b := (start c s).after steps
    (∀ slot, match (b.step (.commit slot)).1 with
      | .commit (.ok ()) =>
        ∃ r, b.slots.lookup slot = some r ∧ (start c s).Made steps slot r ∧
          r.Commits b.session.disk (b.step (.commit slot)).2.session.disk ∧
          (Set.InjOn fingerprint ((start c s).textsDuring steps) →
            b.session.disk.contentAt? r.place = some (.text r.original))
      | .commit (.error f) =>
        (b.step (.commit slot)).2 = b.attempted b.session.disk ∧
          ∃ r, b.slots.lookup slot = some r ∧ r.Fails b.session.disk b.session.refusal f
      | _ => (b.step (.commit slot)).2 = b ∧ b.slots.lookup slot = none) ∧
    (∀ slot path o, (b.step (.render slot path o)).2.session.disk = b.session.disk) ∧
    (∀ path o, Relation.ReflTransGen Replaced b.session.disk (b.step (.annotateFile path o)).2.session.disk) ∧
    (∀ path o, Relation.ReflTransGen Replaced b.session.disk (b.step (.annotateFolder path o)).2.session.disk) ∧
    ∀ slot slot' between r r',
      let b' := (start c s).after (steps ++ .commit slot :: between)
      (b.step (.commit slot)).1 = .commit (.ok ()) → (b'.step (.commit slot')).1 = .commit (.ok ()) →
      b.slots.lookup slot = some r → b'.slots.lookup slot' = some r' → r.place = r'.place → r.original = r'.original →
      Set.InjOn fingerprint ((start c s).textsDuring (steps ++ .commit slot :: between)) →
        b'.session.disk.contentAt? r.place = some (.text r.original) ∧
        (b'.step (.commit slot')).2.session.disk.contentAt? r.place = some (.text r'.text) ∧
        (r.text ≠ r.original →
          ∃ first x rest, between = first ++ x :: rest ∧
            ((start c s).after (steps ++ .commit slot :: first)).session.disk.contentAt? r.place ≠
              some (.text r.original) ∧
            ((start c s).after (steps ++ .commit slot :: first ++ [x])).session.disk.contentAt? r.place =
              some (.text r.original)) := by
  intro b
  refine ⟨fun slot => ?_, fun slot path o => ?_, fun path o => ?_, fun path o => ?_, ?_⟩
  · rw [step_commit]
    cases hslot : b.slots.lookup slot with
    | none => exact ⟨rfl, rfl⟩
    | some r =>
      have hmade := made_of_lookup rfl hslot
      simp only
      cases hresult : r.commit b.session.disk b.session.refusal with
      | error f => exact ⟨rfl, r, rfl, Rendered.fails_of_commit hresult⟩
      | ok disk =>
        have hcommits := (Rendered.commits_of_commit hresult).2
        exact ⟨r, rfl, hmade, hcommits, original_of_commits hmade hcommits⟩
  · obtain ⟨hdisk, -⟩ := b.session.generates_render (b.session.generator? b.config o) o.overwrite path
    rw [step]
    simp only
    cases (b.session.render (b.session.generator? b.config o) o.overwrite path).1 with
    | error f => exact hdisk
    | ok rendering => cases rendering <;> exact hdisk
  · exact Session.replaced_annotateFile b.config o path b.session
  · exact Session.replaced_annotateFolder b.config o path b.session
  · intro slot slot' between r r' b' hfirst hsecond hslot hslot' hplace horiginal hfingerprint
    obtain ⟨r₁, hslot₁, hcommits⟩ := commits_of_step_commit hfirst
    obtain ⟨r₂, hslot₂, hcommits'⟩ := commits_of_step_commit hsecond
    obtain rfl := Option.some.inj (hslot.symm.trans hslot₁)
    obtain rfl := Option.some.inj (hslot'.symm.trans hslot₂)
    have hfound := original_of_commits (made_of_lookup rfl hslot') hcommits' hfingerprint
    rw [← hplace, ← horiginal] at hfound
    refine ⟨hfound, hplace ▸ hcommits'.written.content, fun htext => ?_⟩
    have hleft : ((start c s).after (steps ++ [.commit slot])).session.disk.contentAt? r.place =
        some (.text r.text) := by
      rw [after_append]
      exact hcommits.written.content
    have hchanged : ((start c s).after (steps ++ [.commit slot])).session.disk.contentAt? r.place ≠
        some (.text r.original) := by
      rw [hleft]
      exact fun h => htext (Content.text.inj (Option.some.inj h))
    obtain ⟨first, x, rest, rfl, hbefore, hafter⟩ :=
      exists_step (P := fun b => b.session.disk.contentAt? r.place = some (.text r.original)) hchanged
        (by rwa [List.append_assoc])
    exact ⟨first, x, rest, rfl, by simpa using hbefore, by simpa using hafter⟩

end Workbench

end DocBlocks
