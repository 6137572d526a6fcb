import DocBlocks.Disk.Walk
import DocBlocks.Proofs.Disk.Located
import Mathlib.Data.List.Lex
import Mathlib.Data.List.Sort
import Mathlib.Data.Char

/-!
# Walks over folders

Where a walk stops, and in which order. In a tree where names tell entries apart, the walk comes to
each file once, unless the file lies in a folder that is left out or in one that cannot be opened,
and it stops at the latter instead. It goes in the lexicographic order of the places.

## Main definitions

* `Entry.WellNamed`: whether every folder of a tree has proper names for its entries, each once.
* `Disk.Opens`: whether all folders above a place can be opened.
* `Disk.entered`: the folders that a walk has to enter for a place.

## Main results

* `Disk.mem_walk_iff`: where a walk stops.
* `Disk.pairwise_walk`: the order of the stops.
* `Path.placeOf_below`, `Path.dialect?_below`: the paths of files below a folder lead to them, and
  tell their dialects.
-/

namespace DocBlocks

/-- Whether a text can be the name of an entry. -/
def IsName (name : Text) : Prop := name ≠ [] ∧ name ≠ ['.'] ∧ name ≠ ['.', '.'] ∧ '/' ∉ name

instance (name : Text) : Decidable (IsName name) := inferInstanceAs (Decidable (_ ∧ _))

namespace Entry

/-! ## Names -/

/-- Whether every folder of a tree has proper names for its entries, each of them once. -/
structure WellNamed (e : Entry) : Prop where
  distinct : ∀ place entries, e.at? place = some (folder entries) → (entries.map Prod.fst).Nodup
  names : ∀ place entries, e.at? place = some (folder entries) → ∀ x ∈ entries, IsName x.1

lemma lookup_eq_some_iff_mem {entries : List (Text × Entry)} (h : (entries.map Prod.fst).Nodup) {name : Text}
    {e : Entry} : entries.lookup name = some e ↔ (name, e) ∈ entries := by
  induction entries with
  | nil => simp
  | cons x entries ih =>
    obtain ⟨m, d⟩ := x
    rw [List.map_cons, List.nodup_cons] at h
    rw [lookup_cons_eq, List.mem_cons, Prod.mk.injEq]
    by_cases hm : name = m
    · subst hm
      have hother : (name, e) ∉ entries := fun hmem => h.1 (List.mem_map.mpr ⟨_, hmem, rfl⟩)
      simp [hother, eq_comm]
    · simp [hm, ih h.2]

/-- The entries of a folder with proper names have proper names. -/
lemma wellNamed_folder_iff {entries : List (Text × Entry)} :
    (folder entries).WellNamed ↔ (entries.map Prod.fst).Nodup ∧ ∀ x ∈ entries, IsName x.1 ∧ x.2.WellNamed := by
  constructor
  · intro h
    have hdistinct := h.distinct [] entries rfl
    refine ⟨hdistinct, fun x hx => ⟨h.names [] entries rfl x hx, ?_⟩⟩
    have hat : ∀ place, (folder entries).at? (x.1 :: place) = x.2.at? place := by
      intro place
      rw [at?, (lookup_eq_some_iff_mem hdistinct).mpr hx]
      rfl
    exact ⟨fun place others h' => h.distinct (x.1 :: place) others ((hat place).trans h'),
      fun place others h' => h.names (x.1 :: place) others ((hat place).trans h')⟩
  · rintro ⟨hdistinct, hall⟩
    have hbelow : ∀ name place others, (folder entries).at? (name :: place) = some (folder others) →
        ∃ x ∈ entries, x.2.at? place = some (folder others) := by
      intro name place others h
      obtain ⟨child, hchild, hat⟩ := Option.bind_eq_some_iff.mp h
      exact ⟨(name, child), (lookup_eq_some_iff_mem hdistinct).mp hchild, hat⟩
    constructor
    · rintro (_ | ⟨name, place⟩) others h
      · obtain rfl := folder.inj (Option.some.inj h)
        exact hdistinct
      · obtain ⟨x, hx, hat⟩ := hbelow name place others h
        exact (hall x hx).2.distinct place others hat
    · rintro (_ | ⟨name, place⟩) others h
      · obtain rfl := folder.inj (Option.some.inj h)
        exact fun x hx => (hall x hx).1
      · obtain ⟨x, hx, hat⟩ := hbelow name place others h
        exact (hall x hx).2.names place others hat

/-- The names that lead to an entry are proper. -/
lemma WellNamed.isName {e : Entry} {place : Place} (h : e.WellNamed) (hat : (e.at? place).isSome) :
    ∀ name ∈ place, IsName name := by
  induction place generalizing e with
  | nil => exact fun name hname => nomatch hname
  | cons name place ih =>
    cases e with
    | file => cases hat
    | folder entries =>
      obtain ⟨hdistinct, hall⟩ := wellNamed_folder_iff.mp h
      cases hchild : entries.lookup name with
      | none => simp [at?, hchild] at hat
      | some child =>
        obtain ⟨hname, hchildren⟩ := hall _ ((lookup_eq_some_iff_mem hdistinct).mp hchild)
        rw [at?, hchild] at hat
        exact List.forall_mem_cons.mpr ⟨hname, ih hchildren hat⟩

lemma wellNamed_file (content : Content) : (file content).WellNamed := by
  constructor <;> rintro (_ | ⟨name, place⟩) others h <;> cases h

/-- **Induction over trees**: what holds of files, and of a folder if it holds of its entries, holds
of all. -/
theorem induct {P : Entry → Prop} (file : ∀ content, P (.file content))
    (folder : ∀ entries, (∀ x ∈ entries, P x.2) → P (.folder entries)) : ∀ e, P e
  | .file content => file content
  | .folder entries => folder entries fun x _ => induct file folder x.2
termination_by e => sizeOf e
decreasing_by
  rename_i hx
  have := List.sizeOf_lt_of_mem hx
  obtain ⟨name, e⟩ := x
  simp only [Prod.mk.sizeOf_spec, Entry.folder.sizeOf_spec] at this ⊢
  omega

end Entry

namespace Disk

/-! ## The order of names -/

/-- **Names are compared** character by character. -/
lemma nameLe_iff {s t : Text} : nameLe s t ↔ s ≤ t := by
  rw [← not_lt]
  induction s generalizing t with
  | nil => simp [nameLe]
  | cons a s ih =>
    cases t with
    | nil => simp [nameLe]
    | cons b t =>
      rw [nameLe, List.cons_lt_cons_iff]
      obtain hlt | rfl | hgt := lt_trichotomy a b
      · have htoNat : a.toNat < b.toNat := hlt
        simp [hlt.ne, hlt.not_gt, hlt.ne', htoNat]
      · simp [ih]
      · have htoNat : ¬a.toNat < b.toNat := Nat.not_lt.mpr hgt.le
        simp [hgt, hgt.ne', htoNat]

/-- Values are sorted by the names in front of them. -/
lemma byName_eq_insertionSort {α : Type} (xs : List (Text × α)) :
    byName xs = xs.insertionSort fun x y => x.1 ≤ y.1 := by
  have hinsert : ∀ (x : Text × α) (ys : List (Text × α)),
      insertByName x ys = ys.orderedInsert (fun x y => x.1 ≤ y.1) x := by
    intro x ys
    induction ys with
    | nil => rfl
    | cons y ys ih => simp only [insertByName, List.orderedInsert, ih, nameLe_iff]
  rw [byName, List.insertionSort]
  exact congrArg (fun f => xs.foldr f []) (funext fun x => funext (hinsert x))

/-- **Sorted by name**: the values are the same, and if the names are distinct, each comes behind
those with smaller names. -/
lemma mem_byName {α : Type} {xs : List (Text × α)} {x : Text × α} : x ∈ byName xs ↔ x ∈ xs := by
  rw [byName_eq_insertionSort, List.mem_insertionSort]

lemma pairwise_byName {α : Type} {xs : List (Text × α)} (h : (xs.map Prod.fst).Nodup) :
    (byName xs).Pairwise fun x y => x.1 < y.1 := by
  have hperm := List.perm_insertionSort (fun x y : Text × α => x.1 ≤ y.1) xs
  have htotal : Std.Total fun x y : Text × α => x.1 ≤ y.1 := ⟨fun x y => le_total x.1 y.1⟩
  have htrans : IsTrans (Text × α) fun x y => x.1 ≤ y.1 := ⟨fun _ _ _ => le_trans⟩
  have hsorted := List.pairwise_insertionSort (fun x y : Text × α => x.1 ≤ y.1) xs
  have hdistinct : (xs.insertionSort fun x y => x.1 ≤ y.1).Pairwise fun x y => x.1 ≠ y.1 :=
    List.pairwise_map.mp ((hperm.map Prod.fst).nodup_iff.mpr h)
  rw [byName_eq_insertionSort]
  exact hsorted.imp₂ (fun _ _ hle hne => lt_of_le_of_ne hle hne) hdistinct

/-! ## Stops -/

/-- The place of a stop. -/
def Stop.place : Stop → Place
  | file place | closed place _ => place

variable {skip : Text → Bool} {fault? : Place → Option Fault} {here place : Place} {e d : Entry} {stop : Stop}
  {entries : List (Text × Entry)}

/-- Where a walk stops when it comes to an entry: at a file, and at a folder that cannot be
opened. -/
def stopAt? (fault? : Place → Option Fault) (here : Place) : Entry → Option Stop
  | .file _ => some (.file here)
  | .folder _ => (fault? here).map (.closed here)

lemma place_of_stopAt? (h : stopAt? fault? here e = some stop) : stop.place = here := by
  cases e with
  | file content =>
    obtain rfl := Option.some.inj h
    rfl
  | folder entries =>
    obtain ⟨f, -, rfl⟩ := Option.map_eq_some_iff.mp h
    rfl

/-- Whether the folders on the way from a place can be opened. -/
def Opens (fault? : Place → Option Fault) : Place → Place → Prop
  | _, [] => True
  | here, name :: place => fault? here = none ∧ Opens fault? (here ++ [name]) place

/-- **The folders on the way** to a place are those at the places above it. -/
lemma opens_iff : Opens fault? here place ↔ ∀ front, front <+: place → front ≠ place → fault? (here ++ front) = none := by
  induction place generalizing here with
  | nil =>
    refine ⟨fun _ front hfront hne => absurd (List.prefix_nil.mp hfront) hne, fun _ => trivial⟩
  | cons name place ih =>
    rw [Opens, ih]
    constructor
    · rintro ⟨hhere, hrest⟩ front hfront hne
      cases front with
      | nil => rwa [List.append_nil]
      | cons n front =>
        obtain ⟨rfl, hbelow⟩ := List.cons_prefix_cons.mp hfront
        have hopen := hrest front hbelow fun h => hne (h ▸ rfl)
        rwa [List.append_assoc, List.singleton_append] at hopen
    · intro h
      refine ⟨by simpa using h [] List.nil_prefix (List.cons_ne_nil name place).symm, fun front hfront hne => ?_⟩
      have hopen := h (name :: front) (List.cons_prefix_cons.mpr ⟨rfl, hfront⟩) fun h => hne (List.cons.inj h).2
      rwa [List.append_assoc, List.singleton_append]

/-- The folders that a walk has to enter for the entry `d` at a place, by their names: those on the
way, and the entry itself if it is one. -/
def entered (place : Place) (d : Entry) : List Text := if d.isFolder then place else place.dropLast

/-! ## Walks -/

/-- The stops of a walk over an entry of the folder at a place, unless it is a folder that is left
out. -/
def walkBelow (skip : Text → Bool) (fault? : Place → Option Fault) (here : Place) (x : Text × Entry) : List Stop :=
  if x.2.isFolder && skip x.1 then [] else walk skip fault? (here ++ [x.1]) x.2

lemma walkEach_eq (entries : List (Text × Entry)) :
    walkEach skip fault? here entries = entries.map fun x => (x.1, walkBelow skip fault? here x) := by
  induction entries with
  | nil => rw [walkEach, List.map_nil]
  | cons x entries ih =>
    obtain ⟨name, _ | others⟩ := x
    · rw [walkEach, ih, List.map_cons, walkBelow, Entry.isFolder, Bool.false_and, if_neg Bool.false_ne_true, walk]
    · rw [walkEach, ih, List.map_cons, walkBelow, Entry.isFolder, Bool.true_and]

/-- **A walk over a folder** goes through its entries by name, if the folder can be opened. -/
lemma walk_folder (entries : List (Text × Entry)) :
    walk skip fault? here (.folder entries) =
      match fault? here with
      | some f => [.closed here f]
      | none => (byName (entries.map fun x => (x.1, walkBelow skip fault? here x))).flatMap Prod.snd := by
  cases hopen : fault? here with
  | some f => simp only [walk, hopen]
  | none => simp only [walk, hopen, walkEach_eq]

/-- **A stop in a folder** is the folder itself, if that cannot be opened, and else in one of its
entries. -/
lemma mem_walk_folder :
    stop ∈ walk skip fault? here (.folder entries) ↔
      stopAt? fault? here (.folder entries) = some stop ∨
        fault? here = none ∧ ∃ x ∈ entries, stop ∈ walkBelow skip fault? here x := by
  rw [walk_folder, stopAt?]
  cases fault? here with
  | some f => simp [eq_comm]
  | none => simp [mem_byName]

/-- What a walk has to enter for a place below an entry is this entry, if it is a folder, and what
it has to enter from there. -/
lemma forall_mem_entered_cons {name : Text} (hat : e.at? place = some d) :
    (∀ n ∈ entered (name :: place) d, ¬skip n) ↔
      (e.isFolder && skip name) = false ∧ ∀ n ∈ entered place d, ¬skip n := by
  cases place with
  | nil =>
    obtain rfl := Option.some.inj hat
    cases e <;> simp [entered, Entry.isFolder]
  | cons n place =>
    have hfolder : e.isFolder := by
      cases e with
      | file content => cases hat
      | folder entries => rfl
    rw [hfolder, Bool.true_and, ← Bool.not_eq_true]
    rw [entered, entered, List.dropLast_cons_of_ne_nil (List.cons_ne_nil n place)]
    split <;> rw [List.forall_mem_cons]

/-- **Where a walk stops**: at the files, and at the folders that cannot be opened, with no folder
on the way that is left out or cannot be opened. -/
lemma mem_walk_iff (h : e.WellNamed) :
    stop ∈ walk skip fault? here e ↔
      ∃ place d, e.at? place = some d ∧ stopAt? fault? (here ++ place) d = some stop ∧
        (∀ name ∈ entered place d, ¬skip name) ∧ Opens fault? here place := by
  induction e using Entry.induct generalizing here with
  | file content =>
    rw [walk, List.mem_singleton]
    constructor
    · rintro rfl
      exact ⟨[], .file content, rfl, by rw [List.append_nil]; rfl, by simp [entered, Entry.isFolder], trivial⟩
    · rintro ⟨place, d, hat, hstop, -, -⟩
      cases place with
      | nil =>
        obtain rfl := Option.some.inj hat
        rw [List.append_nil] at hstop
        exact (Option.some.inj hstop).symm
      | cons name place => cases hat
  | folder entries ih =>
    obtain ⟨hdistinct, hall⟩ := Entry.wellNamed_folder_iff.mp h
    rw [mem_walk_folder]
    constructor
    · rintro (hstop | ⟨hopen, x, hx, hstop⟩)
      · exact ⟨[], _, rfl, by rwa [List.append_nil], by simp [entered], trivial⟩
      · rw [walkBelow] at hstop
        split at hstop
        · cases hstop
        · rename_i hkept
          obtain ⟨place, d, hat, hstop, hentered, hopens⟩ := (ih x hx (hall x hx).2).mp hstop
          rw [List.append_assoc] at hstop
          refine ⟨x.1 :: place, d, ?_, hstop, ?_, hopen, hopens⟩
          · rw [Entry.at?, (Entry.lookup_eq_some_iff_mem hdistinct).mpr hx]
            exact hat
          · exact (forall_mem_entered_cons hat).mpr ⟨Bool.eq_false_iff.mpr hkept, hentered⟩
    · rintro ⟨_ | ⟨name, place⟩, d, hat, hstop, hentered, hopens⟩
      · obtain rfl := Option.some.inj hat
        rw [List.append_nil] at hstop
        exact .inl hstop
      · obtain ⟨child, hchild, hat⟩ := Option.bind_eq_some_iff.mp hat
        have hx := (Entry.lookup_eq_some_iff_mem hdistinct).mp hchild
        obtain ⟨hkept, hentered⟩ := (forall_mem_entered_cons hat).mp hentered
        refine .inr ⟨hopens.1, (name, child), hx, ?_⟩
        rw [walkBelow, if_neg (by rw [hkept]; exact Bool.false_ne_true), ih _ hx (hall _ hx).2]
        exact ⟨place, d, hat, by rwa [List.append_assoc], hentered, hopens.2⟩

/-- A walk stops below the place where it starts. -/
lemma exists_place_of_mem_walk (h : e.WellNamed) (hstop : stop ∈ walk skip fault? here e) :
    ∃ place, stop.place = here ++ place := by
  obtain ⟨place, d, -, hstop, -, -⟩ := (mem_walk_iff h).mp hstop
  exact ⟨place, place_of_stopAt? hstop⟩

/-- **The order of a walk** is that of the places, name by name. -/
lemma pairwise_walk (h : e.WellNamed) : (walk skip fault? here e).Pairwise fun a b => a.place < b.place := by
  induction e using Entry.induct generalizing here with
  | file content =>
    rw [walk]
    exact List.pairwise_singleton _ _
  | folder entries ih =>
    obtain ⟨hdistinct, hall⟩ := Entry.wellNamed_folder_iff.mp h
    rw [walk_folder]
    cases fault? here with
    | some f => exact List.pairwise_singleton _ _
    | none =>
      -- the stops in an entry stand below its place, and the entries are sorted by their names
      have hplace : ∀ x ∈ entries, ∀ stop ∈ walkBelow skip fault? here x, ∃ place, stop.place = here ++ x.1 :: place := by
        intro x hx stop hstop
        rw [walkBelow] at hstop
        split at hstop
        · cases hstop
        · obtain ⟨place, hplace⟩ := exists_place_of_mem_walk (hall x hx).2 hstop
          exact ⟨place, by rw [hplace, List.append_assoc, List.singleton_append]⟩
      rw [List.pairwise_flatMap]
      constructor
      · intro y hy
        obtain ⟨x, hx, rfl⟩ := List.mem_map.mp (mem_byName.mp hy)
        rw [walkBelow]
        split
        · exact .nil
        · exact ih x hx (hall x hx).2
      · refine (pairwise_byName (by simpa [Function.comp_def] using hdistinct)).imp_of_mem fun hy hz hlt a ha b hb => ?_
        obtain ⟨x, hx, rfl⟩ := List.mem_map.mp (mem_byName.mp hy)
        obtain ⟨x', hx', rfl⟩ := List.mem_map.mp (mem_byName.mp hz)
        obtain ⟨p, hp⟩ := hplace x hx a ha
        obtain ⟨q, hq⟩ := hplace x' hx' b hb
        rw [hp, hq]
        exact List.append_left_lt (List.cons_lt_cons_iff.mpr (.inl hlt))

end Disk

/-! ## Paths below a folder -/

namespace Path

/-- **The names of an entry's path** are those of its folder's path, but for an empty one at the
end, and its own. -/
lemma names_join (folder : Text) {name : Text} (h : '/' ∉ name) :
    ∃ front, (names folder = front ∨ names folder = front ++ [[]]) ∧ names (join folder name) = front ++ [name] := by
  have hname : names name = [name] := List.splitOn_eq_singleton h
  rw [join]
  split
  · rename_i hopen
    obtain rfl | hslash := hopen
    · exact ⟨[], .inr rfl, hname⟩
    · obtain ⟨front, rfl⟩ := List.getLast?_eq_some_iff.mp hslash
      refine ⟨names front, .inr (Disk.names_append_slash front []), ?_⟩
      rw [List.append_assoc, List.singleton_append, Disk.names_append_slash, hname]
  · exact ⟨names folder, .inl rfl, by rw [Disk.names_append_slash, hname]⟩

lemma placeOf_join {folder name : Text} (h : IsName name) :
    Disk.placeOf (join folder name) = Disk.placeOf folder ++ [name] := by
  obtain ⟨hempty, hself, hparent, hslash⟩ := h
  obtain ⟨front, hfolder, hjoin⟩ := names_join folder hslash
  have hgo : ∀ here, Disk.goTo here name = here ++ [name] := fun here => by simp [Disk.goTo, hempty, hself, hparent]
  have hfront : Disk.placeOf folder = front.foldl Disk.goTo [] := by
    obtain hfolder | hfolder := hfolder <;> simp [Disk.placeOf, hfolder, Disk.goTo]
  rw [Disk.placeOf, hjoin, List.foldl_append, ← hfront]
  exact hgo _

lemma steps_join {folder name : Text} (h : IsName name) : steps (join folder name) = steps folder ++ [name] := by
  obtain ⟨hempty, hself, hparent, hslash⟩ := h
  obtain ⟨front, hfolder, hjoin⟩ := names_join folder hslash
  obtain hfolder | hfolder := hfolder <;> simp [steps, hjoin, hfolder, hempty, hself]

/-- **The path of what is below a folder** leads to its place there. -/
lemma placeOf_below {folder : Text} {place : Place} (h : ∀ name ∈ place, IsName name) :
    Disk.placeOf (below folder place) = Disk.placeOf folder ++ place := by
  induction place generalizing folder with
  | nil => exact (List.append_nil _).symm
  | cons name place ih =>
    obtain ⟨hname, hplace⟩ := List.forall_mem_cons.mp h
    rw [below, List.foldl_cons, ← below, ih hplace, placeOf_join hname, List.append_assoc]
    rfl

lemma steps_below {folder : Text} {place : Place} (h : ∀ name ∈ place, IsName name) :
    steps (below folder place) = steps folder ++ place := by
  induction place generalizing folder with
  | nil => exact (List.append_nil _).symm
  | cons name place ih =>
    obtain ⟨hname, hplace⟩ := List.forall_mem_cons.mp h
    rw [below, List.foldl_cons, ← below, ih hplace, steps_join hname, List.append_assoc]
    rfl

/-- **The dialect of a file below a folder** is told by its name. -/
lemma dialect?_below {folder : Text} {place : Place} (h : ∀ name ∈ place, IsName name) (hne : place ≠ []) :
    dialect? (below folder place) = place.getLast?.bind dialect? := by
  obtain ⟨front, name, rfl⟩ : ∃ front name, place = front ++ [name] := ⟨_, _, (List.dropLast_concat_getLast hne).symm⟩
  obtain ⟨hempty, hself, hparent, hslash⟩ := h name (by simp)
  have hnames : names name = [name] := List.splitOn_eq_singleton hslash
  have hlast : lastName? (below folder (front ++ [name])) = lastName? name := by
    rw [lastName?, lastName?, steps_below h, ← List.append_assoc, List.getLast?_concat]
    simp [steps, hnames, hempty, hself]
  rw [dialect?, extension?, hlast, List.getLast?_concat]
  rfl

end Path

end DocBlocks
