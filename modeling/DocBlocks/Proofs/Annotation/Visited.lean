import DocBlocks.Annotation.FolderRun
import DocBlocks.Proofs.Annotation.Gated
import DocBlocks.Proofs.Disk.Walk

/-!
# Visited files

A run on a folder comes to the same as runs on its files, one after the other. What it reports is
gathered stop by stop.

## Main definitions

* `Session.annotateEach`: runs on files, one after the other.
* `Visit`: what a run on a folder tells of, and `Session.visits`: all of it.
* `FolderRun.Tells`: whether a report tells what the visits came to.
* `IsEligible`, `Session.Reaches`: the files for a run on a folder, and what a walk gets to.

## Main results

* `Session.visit_eq`: a run on a folder is a sequence of runs on files, and its report is gathered
  from the visits.
* `Session.unchanged_annotateEach`: runs on files change nothing but these files.
* `FolderRun.tells_addVisit`, `FolderRun.tells_foldl`: one visit and all of them in the report.
* `Session.mem_eligible_stops_iff`, `Session.closed_mem_stops_iff`: the files of a run on a folder,
  and the folders that it cannot open.
* `Session.annotateFolder_visits`: what a run on a folder does, and what it tells.
-/

namespace DocBlocks

open Entry

/-! ## Runs one after the other -/

namespace Session

/-- Runs on files, one after the other, each in the session that the one before leaves. -/
def annotateEach (c : Config) (o : Options) : List Text → Session → List (Except Failure Outcome) × Session
  | [], s => ([], s)
  | path :: paths, s =>
    let (result, s) := s.annotateFile c o path
    let (results, s) := s.annotateEach c o paths
    (result :: results, s)

variable {c : Config} {o : Options}

/-- A run leaves the generator as it is. -/
lemma generator?_annotateFile (path : Text) (s : Session) :
    (s.annotateFile c o path).2.generator? c o = s.generator? c o := by
  have hscript := (runsTo_annotateWith (s.generator? c o) o path s).script
  rw [generator?, annotateFile, hscript, generator?]

lemma length_annotateEach (paths : List Text) (s : Session) : (s.annotateEach c o paths).1.length = paths.length := by
  induction paths generalizing s with
  | nil => rfl
  | cons path paths ih => exact congrArg Nat.succ (ih _)

/-! ## What runs change -/

/-- A run on a file changes nothing but this file. -/
lemma unchanged_annotateFile (path : Text) (s : Session) :
    (∀ q, q ≠ Disk.placeOf path → (s.annotateFile c o path).2.disk.contentAt? q = s.disk.contentAt? q) ∧
      ∀ q, ((s.annotateFile c o path).2.disk.at? q).map isFolder = (s.disk.at? q).map isFolder := by
  obtain hdisk | ⟨r, hrender, hcommits⟩ := (runsTo_annotateWith (s.generator? c o) o path s).disk_cases
  · rw [annotateFile, hdisk]
    exact ⟨fun _ _ => rfl, fun _ => rfl⟩
  · obtain ⟨rfl, -, -⟩ := render_spec hrender
    exact ⟨hcommits.written.elsewhere, hcommits.written.kinds⟩

/-- Runs on files change nothing but these files. -/
lemma unchanged_annotateEach (paths : List Text) (s : Session) :
    (∀ q, (∀ path ∈ paths, q ≠ Disk.placeOf path) →
      (s.annotateEach c o paths).2.disk.contentAt? q = s.disk.contentAt? q) ∧
      ∀ q, ((s.annotateEach c o paths).2.disk.at? q).map isFolder = (s.disk.at? q).map isFolder := by
  induction paths generalizing s with
  | nil => exact ⟨fun _ _ => rfl, fun _ => rfl⟩
  | cons path paths ih =>
    obtain ⟨helsewhere, hkinds⟩ := unchanged_annotateFile (c := c) (o := o) path s
    obtain ⟨helsewhere', hkinds'⟩ := ih (s.annotateFile c o path).2
    refine ⟨fun q hq => ?_, fun q => (hkinds' q).trans (hkinds q)⟩
    obtain ⟨hfirst, hrest⟩ := List.forall_mem_cons.mp hq
    exact (helsewhere' q hrest).trans (helsewhere q hfirst)

end Session

/-! ## Visits -/

/-- What a run on a folder tells of: a file with what the run on it came to, or a folder that could
not be opened. -/
inductive Visit where
  | ran (place : Place) (result : Except Failure Outcome)
  | closed (place : Place) (fault : Disk.Fault)

namespace Visit

/-- The stop of a visit. -/
def stop : Visit → Disk.Stop
  | ran place _ => .file place
  | closed place f => .closed place f

/-- The file that had its turn, with what the run on it came to. -/
def run? : Visit → Option (Place × Except Failure Outcome)
  | ran place result => some (place, result)
  | closed .. => none

/-- Whether there was a run that came to a new text. -/
def tellsChange : Visit → Bool
  | ran _ (.ok (.previewed ..)) | ran _ (.ok (.committed _)) => true
  | _ => false

/-- Whether there was a run that failed, or a folder that could not be opened. -/
def tellsFailure : Visit → Bool
  | ran _ (.error _) | closed .. => true
  | ran _ (.ok _) => false

/-- Whether a change is told as the run came to it: with the path, and with the text if that was not
written. -/
def ShowsChange (folder : Text) : Visit → Text × Option Text → Prop
  | ran place (.ok (.previewed _ t)), x => x = (Path.below folder place, some t)
  | ran place _, x => x = (Path.below folder place, none)
  | closed .., _ => False

/-- Whether a line tells that a file changed, why its run failed, or why a folder could not be
opened. -/
def Describes (folder : Text) : Visit → Text → Prop
  | ran place (.ok _), line => line = "Changed: ".toList ++ ['/'].intercalate place
  | ran place (.error f), line =>
    line = "Error on ".toList ++ ['/'].intercalate place ++ [':', ' '] ++ f.message
  | closed place f, line =>
    line = "Error on ".toList ++ ['/'].intercalate place ++ [':', ' '] ++
      ("IO error for operation on ".toList ++ Path.below folder place ++ [':', ' '] ++ f.message)

end Visit

/-- The files of a walk that have their turn: those in a known dialect. -/
def eligible (folder : Text) : List Disk.Stop → List Place
  | [] => []
  | .closed .. :: stops => eligible folder stops
  | .file place :: stops =>
    if (Path.dialect? (Path.below folder place)).isSome then place :: eligible folder stops else eligible folder stops

namespace Session

variable {c : Config} {o : Options}

/-- What a run on a folder tells of, from stop to stop. -/
def visits (c : Config) (o : Options) (folder : Text) : List Disk.Stop → Session → List Visit
  | [], _ => []
  | .closed place f :: stops, s => .closed place f :: s.visits c o folder stops
  | .file place :: stops, s =>
    if (Path.dialect? (Path.below folder place)).isSome then
      .ran place (s.annotateFile c o (Path.below folder place)).1 ::
        (s.annotateFile c o (Path.below folder place)).2.visits c o folder stops
    else s.visits c o folder stops

/-- **The runs among the visits** are those on the files that have their turn. -/
lemma filterMap_run?_visits (folder : Text) (stops : List Disk.Stop) (s : Session) :
    (s.visits c o folder stops).filterMap Visit.run? =
      (eligible folder stops).zip (s.annotateEach c o ((eligible folder stops).map (Path.below folder))).1 := by
  induction stops generalizing s with
  | nil => rfl
  | cons stop stops ih =>
    cases stop with
    | closed place f => exact ih s
    | file place =>
      rw [visits, eligible]
      split
      · exact congrArg _ (ih _)
      · exact ih s

/-- **The stops of the visits** are the files that have their turn and the folders that cannot be
opened. -/
lemma sublist_map_stop_visits (folder : Text) (stops : List Disk.Stop) (s : Session) :
    ((s.visits c o folder stops).map Visit.stop).Sublist stops := by
  induction stops generalizing s with
  | nil => exact List.Sublist.slnil
  | cons stop stops ih =>
    cases stop with
    | closed place f => exact (ih s).cons_cons _
    | file place =>
      rw [visits]
      split
      · exact (ih _).cons_cons _
      · exact (ih s).cons _

lemma closed_mem_visits_iff {folder : Text} {place : Place} {f : Disk.Fault} {stops : List Disk.Stop} {s : Session} :
    Visit.closed place f ∈ s.visits c o folder stops ↔ Disk.Stop.closed place f ∈ stops := by
  induction stops generalizing s with
  | nil => simp [visits]
  | cons stop stops ih =>
    cases stop with
    | closed q f' => simp [visits, ih]
    | file q =>
      rw [visits]
      split <;> simp [ih]

/-- Without folders that cannot be opened, each visit is a run. -/
lemma visits_eq_zipWith {folder : Text} {stops : List Disk.Stop} (h : ∀ place f, .closed place f ∉ stops) (s : Session) :
    s.visits c o folder stops =
      List.zipWith Visit.ran (eligible folder stops)
        (s.annotateEach c o ((eligible folder stops).map (Path.below folder))).1 := by
  induction stops generalizing s with
  | nil => rfl
  | cons stop stops ih =>
    have hrest : ∀ place f, .closed place f ∉ stops := fun place f hmem => h place f (List.mem_cons_of_mem _ hmem)
    cases stop with
    | closed place f => exact absurd List.mem_cons_self (h place f)
    | file place =>
      rw [visits, eligible]
      split
      · exact congrArg _ (ih hrest _)
      · exact ih hrest s

end Session

/-! ## Reports -/

namespace FolderRun

variable {folder : Text} {vs : List Visit} {run : FolderRun}

/-- The report with one more visit. -/
def addVisit (folder : Text) (run : FolderRun) : Visit → FolderRun
  | .ran place result => run.addFile (['/'].intercalate place) (Path.below folder place) result
  | .closed place f => run.addClosed (['/'].intercalate place) (Path.below folder place) f

/-- Whether a report tells what the visits came to: it counts the runs, the changes and the
failures, has a line for each change and each failure, and has the changes, all in their order. -/
structure Tells (folder : Text) (vs : List Visit) (run : FolderRun) : Prop where
  scanned : run.scanned = vs.countP fun v => v.run?.isSome
  changed : run.changed = vs.countP Visit.tellsChange
  failed : run.failed = vs.countP Visit.tellsFailure
  summaries : List.Forall₂ (Visit.Describes folder) (vs.filter fun v => v.tellsChange || v.tellsFailure) run.summaries
  changes : List.Forall₂ (Visit.ShowsChange folder) (vs.filter Visit.tellsChange) run.changes

/-- Two reports, one after the other. -/
def append (r r' : FolderRun) : FolderRun :=
  ⟨r.scanned + r'.scanned, r.changed + r'.changed, r.failed + r'.failed, r.summaries ++ r'.summaries,
    r.changes ++ r'.changes⟩

/-- What a visit adds to a report does not depend on the report. -/
lemma addVisit_eq (v : Visit) : run.addVisit folder v = run.append (({} : FolderRun).addVisit folder v) := by
  cases v with
  | closed place f => simp [FolderRun.addVisit, addClosed, addFailure, append]
  | ran place result =>
    cases result with
    | error f => simp [FolderRun.addVisit, addFile, addFailure, append]
    | ok outcome => cases hchanged : outcome.changed <;> simp [FolderRun.addVisit, addFile, append, hchanged]

lemma Tells.append {ws : List Visit} {run' : FolderRun} (h : run.Tells folder vs) (h' : run'.Tells folder ws) :
    (run.append run').Tells folder (vs ++ ws) := by
  constructor
  · rw [List.countP_append, ← h.scanned, ← h'.scanned, FolderRun.append]
  · rw [List.countP_append, ← h.changed, ← h'.changed, FolderRun.append]
  · rw [List.countP_append, ← h.failed, ← h'.failed, FolderRun.append]
  · rw [List.filter_append]
    exact List.rel_append h.summaries h'.summaries
  · rw [List.filter_append]
    exact List.rel_append h.changes h'.changes

/-- **One visit** as a report tells it. -/
lemma tells_addVisit (v : Visit) : (({} : FolderRun).addVisit folder v).Tells folder [v] := by
  cases v with
  | closed place f => exact ⟨rfl, rfl, rfl, .cons rfl .nil, .nil⟩
  | ran place result =>
    cases result with
    | error f => exact ⟨rfl, rfl, rfl, .cons rfl .nil, .nil⟩
    | ok outcome =>
      cases outcome with
      | previewed | committed => exact ⟨rfl, rfl, rfl, .cons rfl .nil, .cons rfl .nil⟩
      | skipped | undecided | declined => exact ⟨rfl, rfl, rfl, .nil, .nil⟩

/-- **A report** that is gathered from visits tells what they came to. -/
lemma tells_foldl (folder : Text) (vs : List Visit) : (vs.foldl (addVisit folder) {}).Tells folder vs := by
  induction vs using List.reverseRecOn with
  | nil => exact ⟨rfl, rfl, rfl, .nil, .nil⟩
  | append_singleton vs v ih =>
    rw [List.foldl_append, List.foldl_cons, List.foldl_nil, addVisit_eq]
    exact ih.append (tells_addVisit v)

end FolderRun

namespace Session

variable {c : Config} {o : Options}

/-- **A run on a folder** is a sequence of runs on files, and its report is gathered from the
visits. -/
lemma visit_eq (folder : Text) (stops : List Disk.Stop) (run : FolderRun) (s : Session) :
    s.visit (s.generator? c o) o folder stops run =
      ((s.visits c o folder stops).foldl (FolderRun.addVisit folder) run,
        (s.annotateEach c o ((eligible folder stops).map (Path.below folder))).2) := by
  induction stops generalizing run s with
  | nil => rfl
  | cons stop stops ih =>
    cases stop with
    | closed place f => exact ih _ s
    | file place =>
      rw [visit, visits, eligible]
      simp only
      split
      · rename_i hdialect
        have hrest := ih (run.addFile (['/'].intercalate place) (Path.below folder place)
          (s.annotateFile c o (Path.below folder place)).1) (s.annotateFile c o (Path.below folder place)).2
        rw [generator?_annotateFile] at hrest
        exact hrest
      · exact ih run s

end Session

/-! ## Runs on folders -/

lemma mem_eligible_iff {folder : Text} {place : Place} {stops : List Disk.Stop} :
    place ∈ eligible folder stops ↔
      Disk.Stop.file place ∈ stops ∧ (Path.dialect? (Path.below folder place)).isSome := by
  induction stops with
  | nil => simp [eligible]
  | cons stop stops ih =>
    cases stop with
    | closed q f => simp [eligible, ih]
    | file q =>
      rw [eligible, List.mem_cons, Disk.Stop.file.injEq, or_and_right, ← ih]
      split
      · rename_i hdialect
        rw [List.mem_cons]
        exact or_congr_left ⟨fun h => ⟨h, h ▸ hdialect⟩, And.left⟩
      · rename_i hdialect
        exact (or_iff_right fun ⟨h, hknown⟩ => hdialect (h ▸ hknown)).symm

/-- The files that have their turn stand in the order of the walk. -/
lemma sublist_map_file_eligible (folder : Text) (stops : List Disk.Stop) :
    ((eligible folder stops).map Disk.Stop.file).Sublist stops := by
  induction stops with
  | nil => exact List.Sublist.slnil
  | cons stop stops ih =>
    cases stop with
    | closed place f => exact ih.cons _
    | file place =>
      rw [eligible]
      split
      · exact ih.cons_cons _
      · exact ih.cons _

/-- Whether a file below a folder is one for a run on this folder: written in a known dialect, and
not in an ignored folder. -/
def IsEligible (path : Text) (e : Entry) (place : Place) : Prop :=
  (∃ content, e.contentAt? place = some content) ∧ (Path.dialect? (Path.below path place)).isSome ∧
    ∀ name ∈ place.dropLast, name ∉ ignoredFolders

/-- Whether a folder below another is one for a run on this folder: not ignored, and not in an
ignored folder. -/
def IsEntered (e : Entry) (place : Place) : Prop :=
  (∃ entries, e.at? place = some (folder entries)) ∧ ∀ name ∈ place, name ∉ ignoredFolders

namespace Session

variable {c : Config} {o : Options} {path : Text} {s : Session} {e : Entry} {entries : List (Text × Entry)}
  {place : Place}

/-- Why the folder at a place below the folder at a path cannot be opened, if it cannot. -/
def faultBelow? (s : Session) (path : Text) (place : Place) : Option Disk.Fault :=
  Disk.openFault? s.disk s.closed (Path.below path place)

/-- Whether a walk gets to a place below the folder at a path: all folders above it, from this
folder on, can be opened. -/
def Reaches (s : Session) (path : Text) (place : Place) : Prop :=
  ∀ above, above <+: place → above ≠ place → s.faultBelow? path above = none

lemma mem_stops_iff (h : e.WellNamed) {stop : Disk.Stop} :
    stop ∈ s.stops path e ↔
      ∃ place d, e.at? place = some d ∧ Disk.stopAt? (s.faultBelow? path) place d = some stop ∧
        (∀ name ∈ Disk.entered place d, name ∉ ignoredFolders) ∧ s.Reaches path place := by
  rw [stops, Disk.mem_walk_iff h]
  simp only [List.nil_append, Disk.opens_iff, List.contains_iff_mem, Reaches]
  rfl

/-- **The files of a run on a folder** are the eligible ones, but for those in folders that cannot
be opened. -/
lemma mem_eligible_stops_iff (h : e.WellNamed) :
    place ∈ eligible path (s.stops path e) ↔ IsEligible path e place ∧ s.Reaches path place := by
  rw [mem_eligible_iff, mem_stops_iff h]
  constructor
  · rintro ⟨⟨q, d, hat, hstop, hentered, hreaches⟩, hdialect⟩
    obtain rfl := Disk.place_of_stopAt? hstop
    cases d with
    | file content => exact ⟨⟨⟨content, contentAt?_eq_some_iff.mpr hat⟩, hdialect, hentered⟩, hreaches⟩
    | folder others =>
      obtain ⟨f, -, hf⟩ := Option.map_eq_some_iff.mp hstop
      cases hf
  · rintro ⟨⟨⟨content, hcontent⟩, hdialect, hentered⟩, hreaches⟩
    exact ⟨⟨place, .file content, contentAt?_eq_some_iff.mp hcontent, rfl, hentered, hreaches⟩, hdialect⟩

/-- **The folders that a run cannot open** are told, but for those in others that cannot be
opened. -/
lemma closed_mem_stops_iff (h : e.WellNamed) {f : Disk.Fault} :
    Disk.Stop.closed place f ∈ s.stops path e ↔
      IsEntered e place ∧ s.faultBelow? path place = some f ∧ s.Reaches path place := by
  rw [mem_stops_iff h]
  constructor
  · rintro ⟨q, d, hat, hstop, hentered, hreaches⟩
    obtain rfl := Disk.place_of_stopAt? hstop
    cases d with
    | file content => cases hstop
    | folder others =>
      obtain ⟨f', hf', hstop⟩ := Option.map_eq_some_iff.mp hstop
      cases hstop
      exact ⟨⟨⟨others, hat⟩, hentered⟩, hf', hreaches⟩
  · rintro ⟨⟨⟨others, hat⟩, hentered⟩, hf, hreaches⟩
    exact ⟨place, .folder others, hat, by rw [Disk.stopAt?, hf]; rfl, hentered, hreaches⟩

/-- Where all folders can be opened, a walk gets to each eligible file. -/
lemma reaches_of_isEligible (hopen : ∀ place, IsEntered e place → s.faultBelow? path place = none)
    (h : IsEligible path e place) : s.Reaches path place := by
  obtain ⟨⟨content, hcontent⟩, -, hnames⟩ := h
  rintro above ⟨rest, rfl⟩ hne
  have hrest : rest ≠ [] := fun h => hne (by rw [h, List.append_nil])
  rw [List.dropLast_append_of_ne_nil hrest] at hnames
  refine hopen above ⟨?_, fun name hname => hnames name (List.mem_append_left _ hname)⟩
  rw [contentAt?_eq_some_iff, at?_append] at hcontent
  obtain ⟨d, hat, hbelow⟩ := Option.bind_eq_some_iff.mp hcontent
  cases d with
  | folder others => exact ⟨others, hat⟩
  | file content =>
    obtain ⟨name, rest, rfl⟩ := List.exists_cons_of_ne_nil hrest
    cases hbelow

lemma annotateFolder_eq (hfolder : Disk.find? s.disk path = some (.folder entries)) :
    s.annotateFolder c o path =
      (.ok ((s.visits c o path (s.stops path (.folder entries))).foldl (FolderRun.addVisit path) {}),
        (s.annotateEach c o ((eligible path (s.stops path (.folder entries))).map (Path.below path))).2) := by
  rw [annotateFolder, hfolder]
  simp only [visit_eq]

/-- **A run on a folder** is a run on each of its files, whatever the tree, the options, the
decisions, the replies and the refused writes are. The files are the eligible ones, but for those in
folders that cannot be opened; each has its turn once, by the names on its way, and in the session
that the one before leaves, also if that failed. All other files stay as they are, and none is made
or removed. The report counts the files, and tells of the changes and failures one by one, in the
order of the walk. Where all folders can be opened, the files are the eligible ones, and the report
tells of the runs and of nothing else.

**Proof sketch.** The walk is the sequence of runs (`visit_eq`), since no run takes the generator
away, and the report is gathered visit by visit (`FolderRun.tells_foldl`). A run changes the file at
its path only (`unchanged_annotateEach`), and the path leads to the place of the file in the folder
(`Path.placeOf_below`). -/
theorem annotateFolder_visits (hfolder : Disk.find? s.disk path = some (.folder entries))
    (hnames : (folder entries).WellNamed) :
    ∃ (run : FolderRun) (places : List Place) (results : List (Except Failure Outcome)) (visits : List Visit),
      (s.annotateFolder c o path).1 = .ok run ∧
      s.annotateEach c o (places.map (Path.below path)) = (results, (s.annotateFolder c o path).2) ∧
      (∀ place, place ∈ places ↔ IsEligible path (folder entries) place ∧ s.Reaches path place) ∧
      places.Pairwise (· < ·) ∧
      (∀ q, (∀ place ∈ places, q ≠ Disk.placeOf path ++ place) →
        (s.annotateFolder c o path).2.disk.contentAt? q = s.disk.contentAt? q) ∧
      (∀ q, ((s.annotateFolder c o path).2.disk.at? q).map isFolder = (s.disk.at? q).map isFolder) ∧
      run.scanned = places.length ∧ run.Tells path visits ∧
      visits.filterMap Visit.run? = places.zip results ∧
      (∀ place f, .closed place f ∈ visits ↔
        IsEntered (folder entries) place ∧ s.faultBelow? path place = some f ∧ s.Reaches path place) ∧
      (visits.map fun v => v.stop.place).Pairwise (· < ·) ∧
      ((∀ place, IsEntered (folder entries) place → s.faultBelow? path place = none) →
        (∀ place, place ∈ places ↔ IsEligible path (folder entries) place) ∧
          visits = List.zipWith Visit.ran places results) := by
  have hrun := annotateFolder_eq (c := c) (o := o) hfolder
  set stops := s.stops path (folder entries)
  set places := eligible path stops
  obtain ⟨helsewhere, hkinds⟩ := unchanged_annotateEach (c := c) (o := o) (places.map (Path.below path)) s
  have horder : stops.Pairwise fun a b => a.place < b.place := Disk.pairwise_walk hnames
  have hfiles := List.pairwise_map.mp (horder.sublist (sublist_map_file_eligible path stops))
  have hvisits := List.pairwise_map.mp (horder.sublist (sublist_map_stop_visits (c := c) (o := o) path stops s))
  have htells := FolderRun.tells_foldl path (s.visits c o path stops)
  have hruns := filterMap_run?_visits (c := c) (o := o) path stops s
  rw [hrun]
  refine ⟨_, places, _, s.visits c o path stops, rfl, rfl, fun place => mem_eligible_stops_iff hnames, hfiles,
    fun q hq => ?_, hkinds, ?_, htells, hruns, fun place f => ?_, List.pairwise_map.mpr hvisits,
    fun hopen => ⟨fun place => ?_, ?_⟩⟩
  · refine helsewhere q (List.forall_mem_map.mpr fun place hplace => ?_)
    obtain ⟨⟨⟨content, hcontent⟩, -⟩, -⟩ := (mem_eligible_stops_iff hnames).mp hplace
    rw [contentAt?_eq_some_iff] at hcontent
    rw [Path.placeOf_below (hnames.isName (by rw [hcontent]; rfl))]
    exact hq place hplace
  · rw [htells.scanned, ← List.length_filterMap_eq_countP, hruns, List.length_zip, length_annotateEach,
      List.length_map, Nat.min_self]
  · rw [closed_mem_visits_iff, closed_mem_stops_iff hnames]
  · rw [mem_eligible_stops_iff hnames]
    exact and_iff_left_of_imp (reaches_of_isEligible hopen)
  · refine visits_eq_zipWith (fun place f hmem => ?_) s
    obtain ⟨hentered, hfault, -⟩ := (closed_mem_stops_iff hnames).mp hmem
    rw [hopen place hentered] at hfault
    cases hfault

/-- A folder with a file that is not accepted, a file without comments, and a file in an ignored
folder. -/
def mixedFolder : List (Text × Entry) :=
  [("a.ts".toList, .file (.text "function (".toList)), ("b.js".toList, .file (.text "function b() {}\n".toList)),
    ("out".toList, .folder [("c.js".toList, .file (.text "function c() {}\n".toList))])]

/-- The file that is not accepted does not keep the next one from its turn, and the ignored one
stays as it is. -/
theorem annotateFolder_visits_mixed :
    Disk.find? (.folder mixedFolder) ['.'] = some (.folder mixedFolder) ∧ (folder mixedFolder).WellNamed ∧
      (∀ place, IsEntered (folder mixedFolder) place → faultBelow? { disk := .folder mixedFolder } ['.'] place = none) ∧
      ∃ run places results, (annotateFolder {} {} ['.'] { disk := .folder mixedFolder }).1 = .ok run ∧
        run.scanned = 2 ∧ run.changed = 1 ∧ run.failed = 1 ∧
        run.summaries = ["Error on a.ts: Parser error: Syntax error near line 1 (TypeScript grammar)".toList,
          "Changed: b.js".toList] ∧
        run.Tells ['.'] (List.zipWith Visit.ran places results) ∧
        (annotateFolder {} {} ['.'] { disk := .folder mixedFolder }).2.disk.contentAt? ["out".toList, "c.js".toList] =
          some (.text "function c() {}\n".toList) := by
  have hfind : Disk.find? (.folder mixedFolder) ['.'] = some (.folder mixedFolder) := rfl
  have hdistinct : (mixedFolder.map Prod.fst).Nodup := by decide
  have hnames : (folder mixedFolder).WellNamed := by
    refine wellNamed_folder_iff.mpr ⟨hdistinct, ?_⟩
    simp only [mixedFolder, List.forall_mem_cons, wellNamed_file, wellNamed_folder_iff]
    exact ⟨⟨by decide, trivial⟩, ⟨by decide, trivial⟩, ⟨by decide, by decide, ⟨by decide, trivial⟩, by simp⟩, by simp⟩
  have hopen : ∀ place, IsEntered (folder mixedFolder) place →
      faultBelow? { disk := .folder mixedFolder } ['.'] place = none := by
    rintro (_ | ⟨name, place⟩) ⟨⟨others, hat⟩, hkept⟩
    · rfl
    · -- the only folder below is ignored
      obtain ⟨child, hchild, hat⟩ := Option.bind_eq_some_iff.mp hat
      have hmem := (lookup_eq_some_iff_mem hdistinct).mp hchild
      simp only [mixedFolder, List.mem_cons, Prod.mk.injEq, List.not_mem_nil, or_false] at hmem
      obtain ⟨-, rfl⟩ | ⟨-, rfl⟩ | ⟨rfl, -⟩ := hmem
      · cases place <;> cases hat
      · cases place <;> cases hat
      · exact absurd (by decide) (hkept _ List.mem_cons_self)
  obtain ⟨run, places, results, visits, hrun, -, -, -, helsewhere, -, -, htells, -, -, -, hall⟩ :=
    annotateFolder_visits (c := {}) (o := {}) (s := { disk := .folder mixedFolder }) hfind hnames
  obtain ⟨heligible, rfl⟩ := hall hopen
  have hreport : (annotateFolder {} {} ['.'] { disk := .folder mixedFolder }).1 = .ok
      ⟨2, 1, 1, ["Error on a.ts: Parser error: Syntax error near line 1 (TypeScript grammar)".toList,
        "Changed: b.js".toList], [("./b.js".toList, none)]⟩ := by decide +kernel
  obtain rfl := Except.ok.inj (hrun.symm.trans hreport)
  refine ⟨hfind, hnames, hopen, _, places, results, hrun, rfl, rfl, rfl, rfl, htells, ?_⟩
  rw [helsewhere]
  · rfl
  · rintro place hplace rfl
    exact ((heligible _).mp hplace).2.2 "out".toList (by decide) (by decide)

end Session

end DocBlocks
