import DocBlocks.Config.Stored
import DocBlocks.Proofs.Config.Rendered
import DocBlocks.Proofs.Disk.Located
import Mathlib.Data.List.Find

/-!
# Stored configurations read back

Settings that are stored are found again. The file that is written is the one that a run looks into:
a file that is named is there afterwards, and among the usual files the same one comes first as
before, or the new one if there was none.

## Main results

* `loadIfThere_destination`: the file that is written for a run holds what the run reads.
* `file?_of_write`: a run finds the file that was written for it.
* `stored_of_store`: **what is stored for a run is what it reads.**
-/

namespace DocBlocks.Config

open Disk

variable {disk after : Entry} {named : Option Text} {path t : Text} {c : Config}

/-! ## Settings without an environment -/

lemma override_default (c : Config) : c.override {} = c := by
  simp [override]

/-- A run without an environment has the stored settings. -/
lemma forRun_default (disk : Entry) (named : Option Text) : forRun disk named {} = stored disk named := by
  rw [forRun]
  cases stored disk named with
  | error => rfl
  | ok c => exact congrArg Except.ok (override_default c)

lemma load_eq_ok_iff : load disk path = .ok c ↔ ∃ t, read disk path = .ok t ∧ read? t = some c := by
  rw [load]
  cases read disk path with
  | error f => simp
  | ok t => cases h : read? t <;> simp [h]

/-- **Stored settings can be stored again.** -/
lemma isStorable_of_stored (h : stored disk named = .ok c) : c.IsStorable := by
  rw [stored] at h
  cases hfile : file? disk named with
  | some path =>
    rw [hfile] at h
    obtain ⟨t, -, hread⟩ := load_eq_ok_iff.mp h
    exact isStorable_of_read? hread
  | none =>
    rw [hfile] at h
    cases h
    intro x hx
    cases hx

/-! ## The file of a run -/

/-- The usual files lie in the folder that paths start from. -/
lemma usual_names {name : Text} (h : name ∈ fileNames) :
    placeOf name = [name] ∧ ∀ disk, exists? disk name = (disk.at? [name]).isSome := by
  have hall : ∀ name ∈ fileNames, Path.names name = [name] ∧ checkPath name = .ok () ∧
      (name ≠ [] ∧ name ≠ ['.'] ∧ name ≠ ['.', '.']) ∧ Text.bytes name ≤ maxName ∧ placeOf name = [name] := by
    decide
  obtain ⟨hname, hcheck, hmarks, hlong, hplace⟩ := hall name h
  exact ⟨hplace, fun disk => congrArg Option.isSome (find?_of_name hname hcheck hmarks hlong disk)⟩

/-- What can be read is there. -/
lemma exists?_of_read (h : read disk path = .ok t) : exists? disk path = true := by
  obtain ⟨hlocate, hcontent⟩ := read_eq_ok_iff.mp h
  rw [exists?, find?, hlocate]
  simp [Entry.contentAt?_eq_some_iff.mp hcontent]

/-- Of the usual files only the written one can be new. -/
lemma exists?_of_addedAt {name written : Text} (hname : name ∈ fileNames) (hwritten : written ∈ fileNames)
    (hne : name ≠ written) (h : Entry.AddedAt (placeOf written) t disk after) : exists? after name = exists? disk name := by
  obtain ⟨-, hat⟩ := usual_names hname
  obtain ⟨hplace, -⟩ := usual_names hwritten
  rw [hplace] at h
  rw [hat, hat, ← Option.isSome_map, h.kinds [name] (by simpa using hne), Option.isSome_map]

lemma newFile_mem : newFile ∈ fileNames := by decide

/-- **Both searches agree**: what stands in the file that settings are written to, if it is there,
is what a run finds. -/
lemma loadIfThere_destination (disk : Entry) (named : Option Text) :
    loadIfThere disk (destination disk named) = stored disk named := by
  cases named with
  | some path =>
    rw [loadIfThere, destination, Option.getD_some, stored, file?]
    cases exists? disk path <;> rfl
  | none =>
    rw [loadIfThere, destination, Option.getD_none, stored, file?]
    cases hfound : fileNames.find? (exists? disk) with
    | some path =>
      have hthere := List.find?_some hfound
      exact if_pos hthere
    | none =>
      have hmissing := List.find?_eq_none.mp hfound newFile newFile_mem
      exact if_neg hmissing

/-- **A run finds the file that was written for it.** -/
lemma file?_of_write {refusal : Option Fault} (h : write disk (destination disk named) t refusal = .ok after) :
    file? after named = some (destination disk named) := by
  obtain ⟨hadded, hread⟩ := addedAt_of_write h
  have hthere := exists?_of_read hread
  cases named with
  | some path => exact if_pos hthere
  | none =>
    have hdestination : destination disk none = (fileNames.find? (exists? disk)).getD newFile := rfl
    rw [file?]
    cases hfound : fileNames.find? (exists? disk) with
    | some path =>
      -- the same file comes first, since no other one is new
      rw [hfound, Option.getD_some] at hdestination
      rw [hdestination] at hadded hthere ⊢
      have hmem := List.mem_of_find?_eq_some hfound
      have hsame : ∀ name ∈ fileNames, exists? after name = exists? disk name := by
        intro name hname
        by_cases hne : name = path
        · rw [hne, hthere, List.find?_some hfound]
        · exact exists?_of_addedAt hname hmem hne hadded
      rw [← hfound]
      exact List.find?_congr hsame
    | none =>
      rw [hfound, Option.getD_none] at hdestination
      rw [hdestination] at hadded hthere ⊢
      have hbefore : exists? after "Annotator.toml".toList = false := by
        have hmem : "Annotator.toml".toList ∈ fileNames := List.mem_cons_self
        rw [exists?_of_addedAt hmem newFile_mem (by decide) hadded]
        exact Bool.eq_false_iff.mpr (List.find?_eq_none.mp hfound _ hmem)
      rw [List.find?_eq_some_iff_append]
      refine ⟨hthere, ["Annotator.toml".toList], [".annotator.toml".toList], rfl, fun name hname => ?_⟩
      rw [List.mem_singleton.mp hname, hbefore]
      rfl

/-- **What is stored for a run is what it reads.** -/
lemma stored_of_store {refusal : Option Fault} (hc : c.IsStorable)
    (h : c.store disk (destination disk named) refusal = .ok after) :
    stored after named = .ok c ∧ Entry.AddedAt (placeOf (destination disk named)) c.render disk after := by
  have hwrite : write disk (destination disk named) c.render refusal = .ok after := by
    rw [store] at h
    cases hwrite : write disk (destination disk named) c.render refusal with
    | error f => rw [hwrite] at h; cases h
    | ok d => rw [hwrite] at h; exact congrArg Except.ok (Except.ok.inj h)
  obtain ⟨hadded, hread⟩ := addedAt_of_write hwrite
  refine ⟨?_, hadded⟩
  rw [stored, file?_of_write hwrite]
  exact load_eq_ok_iff.mpr ⟨_, hread, read?_render hc⟩

end DocBlocks.Config
