import DocBlocks.Disk.Entry
import Mathlib.Tactic.Lemma

/-!
# Written files

What changes in a tree when a file gets a new text: its content, and nothing else. A file that is
not there yet is new besides.

## Main definitions

* `Entry.contentAt?`: what the file at a place holds.
* `Entry.WrittenAt`: whether two trees differ by the text of one file only.
* `Entry.AddedAt`: whether they do so, or one has a file more.

## Main results

* `Entry.addedAt_put`: a text put into a folder changes one file of it only, or adds this file.
* `Entry.writtenAt_put`: a text put in place of a file changes this file only.
-/

namespace DocBlocks.Entry

/-! ## What stands at a place -/

/-- What the file at a place holds. There is nothing where no file stands. -/
def contentAt? (e : Entry) (place : Place) : Option Content :=
  match e.at? place with
  | some (file content) => some content
  | _ => none

lemma contentAt?_eq_some_iff {e : Entry} {place : Place} {content : Content} :
    e.contentAt? place = some content ↔ e.at? place = some (file content) := by
  rw [contentAt?]
  split
  · rename_i c h
    simp [h]
  · rename_i h
    exact ⟨nofun, fun h' => absurd h' (h content)⟩

/-- **Places in a row**: what stands at the second, seen from the first. -/
lemma at?_append (e : Entry) (p q : Place) : e.at? (p ++ q) = (e.at? p).bind (at? q) := by
  induction p generalizing e with
  | nil => rfl
  | cons name p ih =>
    cases e with
    | file => rfl
    | folder entries =>
      simp only [List.cons_append, at?]
      cases entries.lookup name with
      | none => rfl
      | some child => exact ih child

/-- The folder that holds an entry; for the root it is the root. -/
lemma exists_folder_dropLast {e : Entry} {place : Place} {entries : List (Text × Entry)}
    (h : e.at? place = some (folder entries)) : ∃ others, e.at? place.dropLast = some (folder others) := by
  by_cases hroot : place = []
  · subst hroot
    exact ⟨entries, h⟩
  · rw [← List.dropLast_concat_getLast hroot, at?_append] at h
    obtain ⟨above, habove, hat⟩ := Option.bind_eq_some_iff.mp h
    cases above with
    | file => cases hat
    | folder others => exact ⟨others, habove⟩

/-! ## Changes -/

/-- Whether a tree is the one before with a text written to the file at a place. -/
structure WrittenAt (place : Place) (t : Text) (before after : Entry) : Prop where
  content : after.contentAt? place = some (.text t)
  /-- The other files hold what they did. -/
  elsewhere : ∀ q, q ≠ place → after.contentAt? q = before.contentAt? q
  /-- Files and folders are where they were. -/
  kinds : ∀ q, (after.at? q).map isFolder = (before.at? q).map isFolder

lemma lookup_cons_eq (n name : Text) (e : Entry) (entries : List (Text × Entry)) :
    ((name, e) :: entries).lookup n = if n = name then some e else entries.lookup n := by
  rw [List.lookup_cons]
  by_cases h : n = name
  · simp [h]
  · simp [h, beq_eq_false_iff_ne.mpr h]

/-- The entries after a change to one of them. -/
lemma lookup_update (name n : Text) (change : Option Entry → Entry) (entries : List (Text × Entry)) :
    (update name change entries).lookup n =
      if n = name then some (change (entries.lookup name)) else entries.lookup n := by
  induction entries with
  | nil => simp only [update, lookup_cons_eq, List.lookup_nil]
  | cons x entries ih =>
    obtain ⟨m, e⟩ := x
    rw [update]
    by_cases hm : m = name
    · subst hm
      rw [if_pos rfl, lookup_cons_eq, lookup_cons_eq, lookup_cons_eq, if_pos rfl]
      split <;> rfl
    · rw [if_neg hm, lookup_cons_eq, lookup_cons_eq, lookup_cons_eq, ih, if_neg (Ne.symm hm)]
      by_cases hn : n = name
      · subst hn
        rw [if_neg (Ne.symm hm), if_pos rfl, if_pos rfl]
      · simp only [if_neg hn]

lemma at?_put_cons (content : Content) (name n : Text) (place q : Place) (entries : List (Text × Entry)) :
    (put content (name :: place) (folder entries)).at? (n :: q) =
      if n = name then (put content place ((entries.lookup name).getD (folder []))).at? q
      else (folder entries).at? (n :: q) := by
  rw [put, at?, lookup_update]
  split <;> rfl

/-- Whether a tree is the one before with a text in the file at a place, where there may have been
none. -/
structure AddedAt (place : Place) (t : Text) (before after : Entry) : Prop where
  content : after.contentAt? place = some (.text t)
  /-- No folder made way for the file. -/
  free : (before.at? place).any isFolder = false
  /-- The other files hold what they did. -/
  elsewhere : ∀ q, q ≠ place → after.contentAt? q = before.contentAt? q
  /-- No other file and no folder is new or gone. -/
  kinds : ∀ q, q ≠ place → (after.at? q).map isFolder = (before.at? q).map isFolder

/-- Files and folders stay where they are, and a new file is all that comes up. -/
lemma AddedAt.kind_eq {place : Place} {t : Text} {before after : Entry} (h : AddedAt place t before after) {q : Place}
    {kind : Bool} (hkind : (before.at? q).map isFolder = some kind) : (after.at? q).map isFolder = some kind := by
  by_cases hq : q = place
  · obtain ⟨e, he, rfl⟩ := Option.map_eq_some_iff.mp hkind
    have hfree := h.free
    rw [← hq, he, Option.any_some] at hfree
    rw [hfree, hq, contentAt?_eq_some_iff.mp h.content]
    rfl
  · rw [h.kinds q hq, hkind]

/-- A change to one entry of a folder changes nothing at the others. -/
lemma addedAt_cons {name : Text} {place : Place} {t : Text} {entries : List (Text × Entry)} {after : Entry}
    (hput : ∀ n q, (put (.text t) (name :: place) (folder entries)).at? (n :: q) =
      if n = name then after.at? q else (folder entries).at? (n :: q))
    (hcontent : after.contentAt? place = some (.text t))
    (hfree : ((folder entries).at? (name :: place)).any isFolder = false)
    (helsewhere : ∀ q, q ≠ place → after.contentAt? q = (folder entries).contentAt? (name :: q))
    (hkinds : ∀ q, q ≠ place → (after.at? q).map isFolder = ((folder entries).at? (name :: q)).map isFolder) :
    AddedAt (name :: place) t (folder entries) (put (.text t) (name :: place) (folder entries)) := by
  have hafter := fun q => (hput name q).trans (if_pos rfl)
  have hother := fun n q (hn : n ≠ name) => (hput n q).trans (if_neg hn)
  refine ⟨?_, hfree, fun q hq => ?_, fun q hq => ?_⟩
  · rw [contentAt?, hafter]
    exact hcontent
  · cases q with
    | nil => rfl
    | cons n q =>
      rw [contentAt?]
      by_cases hn : n = name
      · subst hn
        rw [hafter]
        exact helsewhere q fun heq => hq (congrArg _ heq)
      · rw [hother n q hn, contentAt?]
  · cases q with
    | nil => rfl
    | cons n q =>
      by_cases hn : n = name
      · subst hn
        rw [hafter]
        exact hkinds q fun heq => hq (congrArg _ heq)
      · rw [hother n q hn]

/-- **A text put into a folder** changes one file of it only, or adds this file. -/
lemma addedAt_put {e : Entry} {above : Place} {name : Text} {entries : List (Text × Entry)}
    (hat : e.at? above = some (folder entries)) (hname : (entries.lookup name).any isFolder = false) (t : Text) :
    AddedAt (above ++ [name]) t e (e.put (.text t) (above ++ [name])) := by
  induction above generalizing e with
  | nil =>
    obtain rfl : e = folder entries := Option.some.inj hat
    have hbelow : ∀ q, q ≠ [] → (folder entries).at? (name :: q) = none := by
      intro q hq
      obtain ⟨n, q, rfl⟩ := List.exists_cons_of_ne_nil hq
      rw [at?]
      cases hchild : entries.lookup name with
      | none => rfl
      | some child =>
        cases child with
        | file => rfl
        | folder => simp [hchild, isFolder] at hname
    have hfile : ∀ q, q ≠ [] → (file (.text t)).at? q = none := by
      intro q hq
      obtain ⟨n, q, rfl⟩ := List.exists_cons_of_ne_nil hq
      rfl
    refine addedAt_cons (fun n q => at?_put_cons (.text t) name n [] q entries) rfl (by simpa [at?] using hname)
      (fun q hq => ?_) fun q hq => ?_
    · rw [contentAt?, contentAt?, hbelow q hq]
      exact hfile q hq ▸ rfl
    · rw [hbelow q hq]
      exact hfile q hq ▸ rfl
  | cons m above ih =>
    cases e with
    | file => cases hat
    | folder others =>
      obtain ⟨child, hchild, hbelow⟩ := Option.bind_eq_some_iff.mp hat
      have hbefore : ∀ q, (folder others).at? (m :: q) = child.at? q := fun q => by rw [at?, hchild]; rfl
      obtain ⟨hcontent, hfree, helsewhere, hkinds⟩ := ih hbelow
      have hput := fun (n : Text) (q : Place) => at?_put_cons (.text t) m n (above ++ [name]) q others
      simp only [hchild, Option.getD_some] at hput
      refine addedAt_cons hput hcontent ((hbefore _).symm ▸ hfree) (fun q hq => ?_) fun q hq => ?_
      · rw [helsewhere q hq, contentAt?, contentAt?, hbefore]
      · rw [hkinds q hq, hbefore]

/-- **A text put in place of a file** changes this file only. -/
lemma writtenAt_put {e : Entry} {place : Place} {content : Content} (h : e.contentAt? place = some content) (t : Text) :
    WrittenAt place t e (e.put (.text t) place) := by
  rw [contentAt?_eq_some_iff] at h
  obtain rfl | ⟨above, name, rfl⟩ : place = [] ∨ ∃ above name, place = above ++ [name] :=
    place.eq_nil_or_concat.imp_right fun ⟨above, name, h⟩ => ⟨above, name, by simpa using h⟩
  · obtain rfl : e = file content := Option.some.inj h
    refine ⟨rfl, fun q hq => ?_, fun q => ?_⟩
    · obtain ⟨name, q, rfl⟩ := List.exists_cons_of_ne_nil hq
      rfl
    · cases q <;> rfl
  · rw [at?_append] at h
    obtain ⟨parent, hparent, hfile⟩ := Option.bind_eq_some_iff.mp h
    cases parent with
    | file => cases hfile
    | folder entries =>
      have hlookup : entries.lookup name = some (file content) := by simpa [at?] using hfile
      have hadded := addedAt_put hparent (by rw [hlookup]; rfl) t
      refine ⟨hadded.content, hadded.elsewhere, fun q => ?_⟩
      by_cases hq : q = above ++ [name]
      · rw [hq, contentAt?_eq_some_iff.mp hadded.content, at?_append, hparent, Option.bind_some, hfile]
        rfl
      · exact hadded.kinds q hq

end DocBlocks.Entry
