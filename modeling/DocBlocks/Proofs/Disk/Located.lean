import DocBlocks.Disk.Access
import DocBlocks.Proofs.Disk.Written

/-!
# Places of paths

A path leads to one place, whatever the tree; the tree only decides whether it leads there. So a
path names the same file in the course of all changes, and what is read from a path can be written
back to it.

## Main definitions

* `Disk.placeOf`: the place that a path leads to, if to any.

## Main results

* `locate_eq_placeOf`: the place does not depend on the tree.
* `read_eq_ok_iff`: what is read is what the file at the place holds.
* `write_eq`: a file that can be found can be written, unless the system refuses.
* `read_of_writtenAt`: what was written is read back.
* `addedAt_of_write`: so it is from a file that may be new, and no other file changes.
-/

namespace DocBlocks.Disk

open Entry

/-! ## Following names -/

/-- Where a name leads to from a folder. -/
def goTo (here : Place) (name : Text) : Place :=
  if name = [] ∨ name = ['.'] then here else if name = ['.', '.'] then here.dropLast else here ++ [name]

/-- A name other than those for a folder and for its parent leads to an entry. -/
lemma goTo_eq_append {name : Text} (hne : name ≠ []) (hself : name ≠ ['.']) (hparent : name ≠ ['.', '.']) (here : Place) :
    goTo here name = here ++ [name] := by
  rw [goTo, if_neg (not_or.mpr ⟨hne, hself⟩), if_neg hparent]

/-- The place that a path leads to, if to any. -/
def placeOf (path : Text) : Place := (Path.names path).foldl goTo []

lemma folderAt_eq_ok_iff {root : Entry} {place : Place} {entries : List (Text × Entry)} :
    folderAt root place = .ok entries ↔ root.at? place = some (.folder entries) := by
  rw [folderAt]
  split <;> rename_i h <;> simp [h]

/-- **One name** is followed from a folder, and leads to its parent, to itself or to one of its
entries. -/
lemma follow_cons_eq_ok_iff {root : Entry} {here place : Place} {name : Text} {names : List Text} :
    follow root here (name :: names) = .ok place ↔
      ∃ entries, root.at? here = some (.folder entries) ∧
        (name = [] ∨ name = ['.'] ∨ name = ['.', '.'] ∨
          Text.bytes name ≤ maxName ∧ (entries.lookup name).isSome) ∧
        follow root (goTo here name) names = .ok place := by
  rw [follow, goTo]
  cases hentries : folderAt root here with
  | error f =>
    refine ⟨nofun, fun ⟨entries, h, _⟩ => ?_⟩
    rw [folderAt_eq_ok_iff.mpr h] at hentries
    cases hentries
  | ok entries =>
    simp only [bind, Except.bind]
    rw [folderAt_eq_ok_iff] at hentries
    constructor
    · intro h
      refine ⟨entries, hentries, ?_⟩
      grind
    · rintro ⟨entries', h, hname, hfollow⟩
      obtain rfl : entries = entries' := by simpa [hentries] using h
      grind

/-- **Following names** leads to a place that does not depend on the tree. -/
lemma eq_foldl_of_follow {root : Entry} {here place : Place} {names : List Text}
    (h : follow root here names = .ok place) : place = names.foldl goTo here := by
  induction names generalizing here with
  | nil =>
    rw [follow] at h
    exact (Except.ok.inj h).symm
  | cons name names ih =>
    obtain ⟨-, -, -, h⟩ := follow_cons_eq_ok_iff.mp h
    exact ih h

lemma follow_append_eq_ok_iff {root : Entry} {here place : Place} {names more : List Text} :
    follow root here (names ++ more) = .ok place ↔
      ∃ there, follow root here names = .ok there ∧ follow root there more = .ok place := by
  induction names generalizing here with
  | nil => simp [follow]
  | cons name names ih =>
    simp only [List.cons_append, follow_cons_eq_ok_iff, ih]
    constructor
    · rintro ⟨entries, hat, hname, there, h, hmore⟩
      exact ⟨there, ⟨entries, hat, hname, h⟩, hmore⟩
    · rintro ⟨there, ⟨entries, hat, hname, h⟩, hmore⟩
      exact ⟨entries, hat, hname, there, h, hmore⟩

lemma locate_eq_ok_iff {root : Entry} {path : Text} {place : Place} :
    locate root path = .ok place ↔ checkPath path = .ok () ∧ follow root [] (Path.names path) = .ok place := by
  rw [locate]
  cases checkPath path <;> simp [bind, Except.bind]

/-- **The place of a path** does not depend on the tree. -/
lemma locate_eq_placeOf {root : Entry} {path : Text} {place : Place} (h : locate root path = .ok place) :
    place = placeOf path :=
  eq_foldl_of_follow (locate_eq_ok_iff.mp h).2

/-! ## Reading -/

/-- **What is read** from a path is the text of the file at its place. -/
lemma read_eq_ok_iff {root : Entry} {path t : Text} :
    read root path = .ok t ↔
      locate root path = .ok (placeOf path) ∧ root.contentAt? (placeOf path) = some (.text t) := by
  rw [read]
  cases hplace : locate root path with
  | error f => simp [bind, Except.bind]
  | ok place =>
    obtain rfl := locate_eq_placeOf hplace
    rw [contentAt?_eq_some_iff]
    simp only [bind, Except.bind, true_and]
    split <;> rename_i h <;> simp [h]

/-! ## Writing -/

lemma names_ne_nil (path : Text) : Path.names path ≠ [] := List.splitOn_ne_nil _ _

lemma names_append_slash (front back : Text) :
    Path.names (front ++ '/' :: back) = Path.names front ++ Path.names back :=
  List.splitOn_append_cons_self front back

/-- A path that ends in a slash ends in the empty name. -/
lemma getLast?_names {path : Text} (h : path.getLast? = some '/') : (Path.names path).getLast? = some [] := by
  obtain ⟨front, rfl⟩ := List.getLast?_eq_some_iff.mp h
  rw [names_append_slash]
  exact List.getLast?_concat

/-- **A path that leads to a file** ends in the name of this file: every other name leads to a
folder. -/
lemma exists_name_of_file {root : Entry} {place : Place} {content : Content} {names : List Text} (hne : names ≠ [])
    (h : follow root [] names = .ok place) (hfile : root.contentAt? place = some content) :
    ∃ before name above entries, names = before ++ [name] ∧ follow root [] before = .ok above ∧
      root.at? above = some (.folder entries) ∧ name ≠ [] ∧ name ≠ ['.'] ∧ name ≠ ['.', '.'] ∧
      Text.bytes name ≤ maxName ∧ entries.lookup name = some (.file content) ∧ place = above ++ [name] := by
  obtain ⟨before, name, rfl⟩ : ∃ before name, names = before ++ [name] :=
    ⟨_, _, (List.dropLast_concat_getLast hne).symm⟩
  obtain ⟨above, habove, hlast⟩ := follow_append_eq_ok_iff.mp h
  obtain ⟨entries, hat, hname, hplace⟩ := follow_cons_eq_ok_iff.mp hlast
  rw [follow, Except.ok.injEq] at hplace
  subst hplace
  rw [contentAt?_eq_some_iff] at hfile
  have hself : ¬(name = [] ∨ name = ['.']) := by
    intro hname
    rw [goTo, if_pos hname, hat] at hfile
    cases hfile
  have hparent : name ≠ ['.', '.'] := by
    intro hname
    rw [goTo, if_neg hself, if_pos hname] at hfile
    obtain ⟨others, hothers⟩ := exists_folder_dropLast hat
    rw [hothers] at hfile
    cases hfile
  rw [not_or] at hself
  have hgo := goTo_eq_append hself.1 hself.2 hparent above
  rw [hgo, at?_append, hat] at hfile
  have hlookup : entries.lookup name = some (.file content) := by
    simpa [at?] using hfile
  refine ⟨before, name, above, entries, rfl, habove, hat, hself.1, hself.2, hparent, ?_, hlookup, hgo⟩
  obtain hname | hname | hname | hname := hname
  · exact absurd hname hself.1
  · exact absurd hname hself.2
  · exact absurd hname hparent
  · exact hname.1

/-- **A file that can be found can be written**, unless the system refuses, and the text goes to its
place. -/
lemma write_eq {root : Entry} {path : Text} {content : Content} (h : locate root path = .ok (placeOf path))
    (hfile : root.contentAt? (placeOf path) = some content) (t : Text) (refusal : Option Fault) :
    write root path t refusal =
      match refusal with
      | some f => .error f
      | none => .ok (root.put (.text t) (placeOf path)) := by
  obtain ⟨hcheck, hfollow⟩ := locate_eq_ok_iff.mp h
  obtain ⟨before, name, above, entries, hnames, habove, hat, hempty, hself, hparent, hlong, hlookup, hplace⟩ :=
    exists_name_of_file (names_ne_nil path) hfollow hfile
  have hslash : path.getLast? ≠ some '/' := by
    intro hslash
    have hlast := getLast?_names hslash
    rw [hnames, List.getLast?_concat, Option.some.injEq] at hlast
    exact hempty hlast
  have htarget : target root path = .ok (placeOf path) := by
    rw [target, hcheck]
    simp only [bind, Except.bind, hnames, List.reverse_append, List.reverse_singleton, List.singleton_append,
      List.dropWhile_cons, hempty, decide_false, Bool.false_eq_true, if_false, List.reverse_reverse, habove,
      folderAt_eq_ok_iff.mpr hat, hslash, hself, hparent, or_self, Nat.not_lt.mpr hlong, hlookup, Option.any_some,
      Entry.isFolder, Bool.false_eq_true, if_false, hplace]
  rw [write, htarget]
  cases refusal <;> rfl

/-! ## Reading back -/

section Kinds

variable {before after : Entry}
  (hkinds : ∀ q kind, (before.at? q).map Entry.isFolder = some kind → (after.at? q).map Entry.isFolder = some kind)

include hkinds

/-- Folders stand where they stood. -/
lemma exists_folder_of_kinds {here : Place} {entries : List (Text × Entry)}
    (h : before.at? here = some (.folder entries)) : ∃ others, after.at? here = some (.folder others) := by
  have hkind := hkinds here true (by rw [h]; rfl)
  cases hafter : after.at? here with
  | none => rw [hafter] at hkind; cases hkind
  | some e =>
    cases e with
    | file content => rw [hafter] at hkind; cases hkind
    | folder others => exact ⟨others, rfl⟩

/-- A folder has entries of the names that it had. -/
lemma isSome_lookup_of_kinds {here : Place} {entries others : List (Text × Entry)} {name : Text}
    (hbefore : before.at? here = some (.folder entries)) (hafter : after.at? here = some (.folder others))
    (h : (entries.lookup name).isSome = true) : (others.lookup name).isSome = true := by
  obtain ⟨e, he⟩ := Option.isSome_iff_exists.mp h
  have hentry : ∀ entries : List (Text × Entry), (folder entries).at? [name] = entries.lookup name := by
    simp [at?]
  have hkind := hkinds (here ++ [name]) e.isFolder (by rw [at?_append, hbefore, Option.bind_some, hentry, he]; rfl)
  rw [at?_append, hafter, Option.bind_some, hentry] at hkind
  rw [← Option.isSome_map, hkind]
  rfl

/-- **Names lead where they led** as long as files and folders stay where they are. -/
lemma follow_of_kinds {here place : Place} {names : List Text} (h : follow before here names = .ok place) :
    follow after here names = .ok place := by
  induction names generalizing here with
  | nil => exact h
  | cons name names ih =>
    obtain ⟨entries, hat, hname, hfollow⟩ := follow_cons_eq_ok_iff.mp h
    obtain ⟨others, hothers⟩ := exists_folder_of_kinds hkinds hat
    have hname' := hname.imp_right (Or.imp_right (Or.imp_right (And.imp_right (isSome_lookup_of_kinds hkinds hat hothers))))
    exact follow_cons_eq_ok_iff.mpr ⟨others, hothers, hname', ih hfollow⟩

end Kinds

/-- **What was written is read back**: after a text is written to the file that a path leads to, the
path still leads there, and this text is read. -/
lemma read_of_writtenAt {before after : Entry} {path t : Text} (hlocate : locate before path = .ok (placeOf path))
    (h : WrittenAt (placeOf path) t before after) : read after path = .ok t := by
  obtain ⟨hcheck, hfollow⟩ := locate_eq_ok_iff.mp hlocate
  have hplace : locate after path = .ok (placeOf path) :=
    locate_eq_ok_iff.mpr ⟨hcheck, follow_of_kinds (fun q kind hkind => (h.kinds q).trans hkind) hfollow⟩
  exact read_eq_ok_iff.mpr ⟨hplace, h.content⟩

/-! ## Files that may be new -/

/-- Names joined with an empty one behind them end in a slash. -/
lemma intercalate_concat_nil {names : List Text} (hne : names ≠ []) :
    ['/'].intercalate (names ++ [[]]) = ['/'].intercalate names ++ ['/'] := by
  induction names with
  | nil => exact absurd rfl hne
  | cons name names ih =>
    cases names with
    | nil => simp [List.intercalate_cons_cons]
    | cons next names =>
      have hrest := ih (List.cons_ne_nil _ _)
      simp only [List.cons_append, List.intercalate_cons_cons] at hrest ⊢
      rw [hrest]
      simp only [List.append_assoc]

/-- Only the empty path and paths that end in a slash end in the empty name. -/
lemma eq_nil_or_getLast?_eq {path : Text} (h : (Path.names path).getLast? = some []) :
    path = [] ∨ path.getLast? = some '/' := by
  obtain ⟨names, hnames⟩ := List.getLast?_eq_some_iff.mp h
  have hpath : ['/'].intercalate (Path.names path) = path := List.intercalate_splitOn '/'
  rw [hnames] at hpath
  by_cases hne : names = []
  · left
    rw [← hpath, hne]
    rfl
  · right
    rw [← hpath, intercalate_concat_nil hne, List.getLast?_concat]

lemma bind_eq_ok_iff {ε α β : Type} {x : Except ε α} {f : α → Except ε β} {b : β} :
    x >>= f = .ok b ↔ ∃ a, x = .ok a ∧ f a = .ok b := by
  cases x <;> simp [bind, Except.bind]

/-- **Where a file can be written**: a path leads through folders to its last name, under which no
folder stands. -/
lemma exists_name_of_target {root : Entry} {path : Text} {place : Place} (h : target root path = .ok place) :
    ∃ before name above entries, checkPath path = .ok () ∧ Path.names path = before ++ [name] ∧
      follow root [] before = .ok above ∧ root.at? above = some (.folder entries) ∧ name ≠ [] ∧ name ≠ ['.'] ∧
      name ≠ ['.', '.'] ∧ Text.bytes name ≤ maxName ∧ (entries.lookup name).any Entry.isFolder = false ∧
      place = above ++ [name] := by
  obtain ⟨⟨⟩, hcheck, hbody⟩ := bind_eq_ok_iff.mp h
  split at hbody
  · cases hbody
  rename_i name before hnames
  obtain ⟨above, habove, hrest⟩ := bind_eq_ok_iff.mp hbody
  obtain ⟨entries, hentries, hlast⟩ := bind_eq_ok_iff.mp hrest
  split at hlast
  · cases hlast
  rename_i hmarks
  obtain ⟨hslash, hself, hparent⟩ : path.getLast? ≠ some '/' ∧ name ≠ ['.'] ∧ name ≠ ['.', '.'] := by
    simpa only [not_or] using hmarks
  split at hlast
  · cases hlast
  rename_i hlong
  split at hlast
  · cases hlast
  rename_i hfolder
  obtain rfl := Except.ok.inj hlast
  -- no empty name stands behind the last one, since the path does not end in a slash
  obtain ⟨init, last, hsplit⟩ : ∃ init last, Path.names path = init ++ [last] :=
    ⟨_, _, (List.dropLast_concat_getLast (names_ne_nil path)).symm⟩
  have hne : last ≠ [] := by
    rintro rfl
    obtain rfl | hend := eq_nil_or_getLast?_eq (show (Path.names path).getLast? = some [] by rw [hsplit, List.getLast?_concat])
    · cases hcheck
    · exact hslash hend
  have hreverse : (Path.names path).reverse.dropWhile (· = []) = last :: init.reverse := by
    rw [hsplit]
    simp [hne]
  obtain ⟨rfl, rfl⟩ := List.cons.inj (hreverse.symm.trans hnames)
  rw [List.reverse_reverse] at habove
  exact ⟨init, last, above, entries, hcheck, hsplit, habove, folderAt_eq_ok_iff.mp hentries, hne, hself, hparent,
    Nat.not_lt.mp hlong, Bool.eq_false_iff.mpr hfolder, rfl⟩

/-- **What was written is read back**, also from a new file, and no other file changes. -/
lemma addedAt_of_write {root disk : Entry} {path t : Text} {refusal : Option Fault}
    (h : write root path t refusal = .ok disk) : AddedAt (placeOf path) t root disk ∧ read disk path = .ok t := by
  obtain ⟨place, htarget, hput⟩ := bind_eq_ok_iff.mp h
  obtain rfl : refusal = none := by
    cases refusal with
    | none => rfl
    | some f => cases hput
  obtain ⟨before, name, above, entries, hcheck, hnames, habove, hat, hne, hself, hparent, hlong, hfolder, rfl⟩ :=
    exists_name_of_target htarget
  obtain rfl := (Except.ok.inj hput).symm
  have hgo := goTo_eq_append hne hself hparent above
  have hplace : placeOf path = above ++ [name] := by
    rw [placeOf, hnames, List.foldl_append, ← eq_foldl_of_follow habove, List.foldl_cons, List.foldl_nil, hgo]
  have hadded := addedAt_put hat hfolder t
  obtain ⟨others, hothers⟩ := exists_folder_of_kinds (fun _ _ => hadded.kind_eq) hat
  have hlookup : others.lookup name = some (file (.text t)) := by
    have hfile := contentAt?_eq_some_iff.mp hadded.content
    rw [at?_append, hothers] at hfile
    simpa [at?] using hfile
  have hfollow : follow (root.put (.text t) (above ++ [name])) [] (Path.names path) = .ok (above ++ [name]) := by
    rw [hnames, follow_append_eq_ok_iff]
    refine ⟨above, follow_of_kinds (fun _ _ => hadded.kind_eq) habove, ?_⟩
    refine follow_cons_eq_ok_iff.mpr ⟨others, hothers, .inr (.inr (.inr ⟨hlong, by rw [hlookup]; rfl⟩)), ?_⟩
    rw [hgo, follow]
  rw [read_eq_ok_iff, hplace]
  exact ⟨hadded, locate_eq_ok_iff.mpr ⟨hcheck, hfollow⟩, hadded.content⟩

/-- **A path of one name** leads to what stands under this name. -/
lemma find?_of_name {name : Text} (hname : Path.names name = [name]) (hcheck : checkPath name = .ok ())
    (hmarks : name ≠ [] ∧ name ≠ ['.'] ∧ name ≠ ['.', '.']) (hlong : Text.bytes name ≤ maxName) (root : Entry) :
    find? root name = root.at? [name] := by
  have hgo : goTo [] name = [name] := goTo_eq_append hmarks.1 hmarks.2.1 hmarks.2.2 []
  rw [find?]
  cases hlocate : locate root name with
  | ok place =>
    obtain ⟨-, hfollow⟩ := locate_eq_ok_iff.mp hlocate
    rw [hname] at hfollow
    have hplace := eq_foldl_of_follow hfollow
    rw [List.foldl_cons, List.foldl_nil, hgo] at hplace
    rw [hplace]
  | error f =>
    -- if something stood there the path would lead to it
    cases hat : root.at? [name] with
    | none => rfl
    | some e =>
      cases root with
      | file => cases hat
      | folder entries =>
        have hlookup : (entries.lookup name).isSome = true := by
          simp only [at?] at hat
          rw [Option.isSome_iff_exists]
          exact (Option.bind_eq_some_iff.mp hat).imp fun _ h => h.1
        have hfollow : follow (folder entries) [] (Path.names name) = .ok [name] := by
          rw [hname]
          refine follow_cons_eq_ok_iff.mpr ⟨entries, rfl, .inr (.inr (.inr ⟨hlong, hlookup⟩)), ?_⟩
          rw [hgo, follow]
        rw [locate_eq_ok_iff.mpr ⟨hcheck, hfollow⟩] at hlocate
        cases hlocate

end DocBlocks.Disk
