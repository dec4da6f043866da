import Mathlib.Data.List.Nodup
import NodeReshape.Proofs.BatchProgress

/-!
# The names of the files of a batch

The name of a listed file is joined to both directories, and the last segment of the joined path is
taken for the name again, whatever the directories are. So a file has one name throughout, and files
of different names are read and written by different paths.
-/
namespace NodeReshape

/-- The file that an event is bound to. -/
def Event.file? (e : Event) : Option Value := lookup? "file".toList e.bindings

@[simp] theorem file?_reshapingEvent (fileName inputPath : Text) (fragments : List Fragment) :
    (reshapingEvent fileName inputPath fragments).file? = some (.string fileName) := by
  unfold reshapingEvent
  split <;> rfl

namespace Path

/-- The name can be read off a joined path, so that names are told apart by their paths. -/
theorem join_injOn (directory : Text) {m n : Text} (hm : IsName m) (hn : IsName n)
    (h : join directory m = join directory n) : m = n :=
  calc m = base (join directory m) := (base_join directory hm).symm
    _ = base (join directory n) := by rw [h]
    _ = n := base_join directory hn

theorem nodup_map_join (directory : Text) {names : List Text} (hn : ∀ n ∈ names, IsName n)
    (hd : names.Nodup) : (names.map (join directory)).Nodup :=
  hd.map_on fun _ ha _ hb => join_injOn directory (hn _ ha) (hn _ hb)

end Path

/-- These contents written by these paths, one after another. -/
def Disk.writeAll (d : Disk) (writes : List (Text × Bytes)) : Except AccessFault Disk :=
  writes.foldlM (fun d w => d.write w.1 w.2) d

/-- The result for a file gives the name under which it was listed, as do the paths. -/
structure NamedAlike (c : Config) (f : Text × Bytes) (file : FileResult) : Prop where
  fileName : file.fileName = f.1
  inputPath : file.inputPath = Path.join c.inputDir f.1
  outputPath : file.outputPath = Path.join c.outputDir f.1
  base : Path.base file.outputPath = f.1

/-- A file was migrated and told to the reporter, and one event is bound to it. -/
structure TakesFile (c : Config) (reporter : Option Reporter) (s : Session) (f : Text × Bytes)
    (file : FileResult) (s' : Session) : Prop where
  named : NamedAlike c f file
  logged : ∃ e : Event, e.file? = some (.string f.1) ∧ s'.events = s.events ++ [e]
  notices : s'.notices = s.notices ++ told reporter [f]
  written : ∃ content, s.disk.write file.outputPath content = .ok s'.disk

/-- The first of these files are migrated, with these results, and are bound to events, told to the
reporter and written by the output paths of the results in their order. At most one more file is
bound to an event, and all of them are migrated where no failure ends the batch. -/
structure TakesFiles (c : Config) (reporter : Option Reporter) (s : Session)
    (files : List (Text × Bytes)) (results : List FileResult)
    (r : Session × Except Raised (List FileResult)) : Prop where
  named : List.Forall₂ (NamedAlike c) (files.take results.length) results
  logged : ∃ read events, results.length ≤ read ∧ read ≤ results.length + 1 ∧
    r.1.events = s.events ++ events ∧
    events.filterMap Event.file? = (files.take read).map fun f => .string f.1
  notices : r.1.notices = s.notices ++ told reporter (files.take results.length)
  written : ∃ contents, contents.length = results.length ∧
    s.disk.writeAll ((results.map FileResult.outputPath).zip contents) = .ok r.1.disk
  returned : ∀ all, r.2 = .ok all → all = results ∧ results.length = files.length

section Loop

variable {c : Config} {reporter : Option Reporter} {s : Session}

theorem takesFiles_nil : TakesFiles c reporter s [] [] (s, .ok []) where
  named := .nil
  logged := ⟨0, [], by simp⟩
  notices := by simp
  written := ⟨[], rfl, rfl⟩
  returned := by simp

/-- A batch that fails before a file is written, with at most one event. -/
theorem takesFiles_failed (files : List (Text × Bytes)) (e : Raised) (s' : Session)
    (events : List Event) (hfew : events.length ≤ 1) (hevents : s'.events = s.events ++ events)
    (hfile : events.filterMap Event.file? = (files.take events.length).map fun f => .string f.1)
    (hnotices : s'.notices = s.notices) (hdisk : s'.disk = s.disk) :
    TakesFiles c reporter s files [] (s', .error e) where
  named := .nil
  logged := ⟨events.length, events, by simp, by simpa using hfew, hevents, hfile⟩
  notices := by simp [hnotices]
  written := ⟨[], rfl, by rw [hdisk]; rfl⟩
  returned := by simp

/-- A batch that goes on after its first file. -/
theorem TakesFile.cons {f : Text × Bytes} {file : FileResult} {s' : Session}
    (hfirst : TakesFile c reporter s f file s') {files : List (Text × Bytes)}
    {results : List FileResult} {r : Session × Except Raised (List FileResult)}
    (h : TakesFiles c reporter s' files results r) :
    TakesFiles c reporter s (f :: files) (file :: results) (r.1, r.2.map (file :: ·)) where
  named := .cons hfirst.named h.named
  logged := by
    obtain ⟨e, hfile, he⟩ := hfirst.logged
    obtain ⟨read, events, hlow, hhigh, hevents, hfiles⟩ := h.logged
    refine ⟨read + 1, e :: events, ?_, ?_, ?_, ?_⟩
    · simpa using hlow
    · simpa using hhigh
    · rw [hevents, he, List.append_assoc]
      rfl
    · rw [List.filterMap_cons_some hfile, hfiles]
      rfl
  notices := by
    rw [List.length_cons, List.take_succ_cons, told_cons, ← List.append_assoc, ← hfirst.notices]
    exact h.notices
  written := by
    obtain ⟨content, hcontent⟩ := hfirst.written
    obtain ⟨contents, hlength, hwritten⟩ := h.written
    refine ⟨content :: contents, by simp [hlength], ?_⟩
    rw [List.map_cons, List.zip_cons_cons, Disk.writeAll, List.foldlM_cons, hcontent]
    exact hwritten
  returned := by
    intro all hall
    cases hr : r.2 with
    | error e => simp [hr, Except.map] at hall
    | ok others =>
      obtain ⟨rfl, hlength⟩ := h.returned others hr
      rw [hr] at hall
      exact ⟨(Except.ok.inj hall).symm, by simp [hlength]⟩

/-- A file fails unread, or it is bound to an event, and fails unwritten or is migrated. -/
theorem migrateFile_takesFile (c : Config) (s : Session) {f : Text × Bytes}
    (hn : Path.IsName f.1) :
    let r := migrateFile s (Path.join c.inputDir f.1) (Path.join c.outputDir f.1)
    (∃ raised, r = (s, .error raised)) ∨
    (∃ raised e, e.file? = some (.string f.1) ∧ r = (s.log e, .error raised)) ∨
    ∃ file s', TakesFile c none s f file s' ∧ r = (s', .ok file) := by
  have hbase := Path.base_join c.inputDir hn
  have hfile := file?_reshapingEvent f.1 (Path.join c.inputDir f.1)
  rcases migrateFile_outcomes s (Path.join c.inputDir f.1) (Path.join c.outputDir f.1) with
    ⟨fault, -, hm⟩ | ⟨content, -, ⟨fault, -, hm⟩ | ⟨d, hwrite, hm⟩⟩
  · exact .inl ⟨_, hm⟩
  · rw [hbase] at hm
    exact .inr (.inl ⟨_, _, hfile _, hm⟩)
  · rw [hbase] at hm
    refine .inr (.inr ⟨_, _, ⟨⟨rfl, rfl, rfl, ?_⟩, ⟨_, hfile _, rfl⟩, ?_, _, hwrite⟩, hm⟩)
    · exact Path.base_join c.outputDir hn
    · exact (List.append_nil _).symm

/-- Whether or not the reporter objects, it is told. -/
theorem TakesFile.report {f : Text × Bytes} {file : FileResult} {s' : Session}
    (h : TakesFile c none s f file s') (reporter : Option Reporter) :
    TakesFile c reporter s f file (s'.report reporter (.fileTransformed f.1)).1 := by
  have htold : s'.notices ++ told reporter [f] = s.notices ++ told reporter [f] := by
    rw [h.notices, told, List.append_nil]
  rcases report_cases s' reporter f with hr | ⟨_, _, -, -, hr⟩
  · rw [hr]
    exact ⟨h.named, h.logged, htold, h.written⟩
  · rw [hr]
    exact ⟨h.named, h.logged, htold, h.written⟩

/-- At an eligible file the batch fails, before it is written or when the reporter objects to it,
or the batch goes on behind it. -/
theorem migrateEntries_takesFile (f : Text × Bytes) (rest : List (Text × Entry))
    (files : List (Text × Bytes)) (hn : Path.IsName f.1)
    (he : isEligible .file f.1 c.extension = true) :
    let r := migrateEntries c reporter ((f.1, .file f.2) :: rest) s
    (∃ results, TakesFiles c reporter s (f :: files) results r) ∨
    ∃ file s', TakesFile c reporter s f file s' ∧
      r = ((migrateEntries c reporter rest s').1,
        (migrateEntries c reporter rest s').2.map (file :: ·)) := by
  intro r
  have hkind : isEligible (Entry.file f.2).kind f.1 c.extension = true := he
  simp only [r, migrateEntries, if_pos hkind]
  rcases migrateFile_takesFile c s hn with
    ⟨raised, hm⟩ | ⟨raised, e, hfile, hm⟩ | ⟨file, s', htaken, hm⟩
  · rw [hm]
    exact .inl ⟨[], takesFiles_failed _ raised s [] (by simp) (by simp) rfl rfl rfl⟩
  · rw [hm]
    exact .inl ⟨[], takesFiles_failed _ raised _ [e] (by simp) rfl (by simp [hfile]) rfl rfl⟩
  · rw [hm]
    have htold := htaken.report reporter
    dsimp only
    rcases hr : s'.report reporter (.fileTransformed f.1) with ⟨s'', raised | _⟩
    · rw [hr] at htold
      have hfailed : TakesFiles c reporter s'' files [] (s'', .error raised) :=
        takesFiles_failed files raised s'' [] (by simp) (by simp) rfl rfl rfl
      exact .inl ⟨[file], htold.cons hfailed⟩
    · rw [hr] at htold
      exact .inr ⟨file, s'', htold, rfl⟩

/-- A batch takes the eligible files of any listing of legal names in their order. -/
theorem exists_takesFiles (c : Config) (reporter : Option Reporter) (s : Session)
    (entries : List (Text × Entry)) (hn : ∀ e ∈ entries, Path.IsName e.1) :
    ∃ results, TakesFiles c reporter s (eligibleFiles c.extension entries) results
      (migrateEntries c reporter entries s) := by
  induction entries using eligibleFiles_induction generalizing s with
  | nil => exact ⟨[], takesFiles_nil⟩
  | file f rest files he ih =>
    have hrest : ∀ e ∈ rest, Path.IsName e.1 := fun e h => hn e (List.mem_cons_of_mem _ h)
    rcases migrateEntries_takesFile f rest files (hn _ List.mem_cons_self) he with
      hstop | ⟨file, s', hfirst, hgo⟩
    · exact hstop
    · obtain ⟨results, h⟩ := ih s' hrest
      rw [hgo]
      exact ⟨file :: results, hfirst.cons h⟩
  | skip e rest files he ih =>
    have hrest : ∀ e ∈ rest, Path.IsName e.1 := fun e h => hn e (List.mem_cons_of_mem _ h)
    obtain ⟨results, h⟩ := ih (s.log (.entrySkipped e.1)) hrest
    obtain ⟨read, events, hlow, hhigh, hevents, hfiles⟩ := h.logged
    rw [migrateEntries, if_neg he]
    refine ⟨results, h.named, ⟨read, .entrySkipped e.1 :: events, hlow, hhigh, ?_, ?_⟩, h.notices,
      h.written, h.returned⟩
    · rw [hevents]
      exact List.append_assoc _ _ _
    · exact hfiles

end Loop

theorem NamedAlike.map_paths {c : Config} {files : List (Text × Bytes)}
    {results : List FileResult} (h : List.Forall₂ (NamedAlike c) files results) :
    results.map FileResult.inputPath = (files.map Prod.fst).map (Path.join c.inputDir) ∧
      results.map FileResult.outputPath = (files.map Prod.fst).map (Path.join c.outputDir) := by
  induction h with
  | nil => simp
  | cons hfile _ ih => simp [hfile.inputPath, hfile.outputPath, ih]

/-- No two of these paths are the same. -/
structure DistinctPaths (c : Config) (entries : List (Text × Entry)) (results : List FileResult) :
    Prop where
  inputs : (results.map FileResult.inputPath).Nodup
  outputs : (results.map FileResult.outputPath).Nodup
  joinedInputs : ((entries.map Prod.fst).map (Path.join c.inputDir)).Nodup
  joinedOutputs : ((entries.map Prod.fst).map (Path.join c.outputDir)).Nodup

theorem TakesFiles.distinctPaths {c : Config} {reporter : Option Reporter} {s : Session}
    {entries : List (Text × Entry)} {results : List FileResult}
    {r : Session × Except Raised (List FileResult)} (hn : ∀ e ∈ entries, Path.IsName e.1)
    (hd : (entries.map Prod.fst).Nodup)
    (h : TakesFiles c reporter s (eligibleFiles c.extension entries) results r) :
    DistinctPaths c entries results := by
  obtain ⟨hinputs, houtputs⟩ := NamedAlike.map_paths h.named
  have hnames : ∀ n ∈ entries.map Prod.fst, Path.IsName n := by simpa using hn
  have hsub : (((eligibleFiles c.extension entries).take results.length).map Prod.fst).Sublist
      (entries.map Prod.fst) :=
    ((List.take_sublist ..).map _).trans (eligibleFiles_names_sublist c.extension entries)
  have hin := Path.nodup_map_join c.inputDir hnames hd
  have hout := Path.nodup_map_join c.outputDir hnames hd
  constructor
  · rw [hinputs]
    exact (hsub.map _).nodup hin
  · rw [houtputs]
    exact (hsub.map _).nodup hout
  · exact hin
  · exact hout

/-- Whatever the two directories are and whatever legal names are listed, each file that a batch
takes is bound, reported, returned and written under the name that was listed, and the paths of
different names are different, so that no path is written twice. -/
theorem migrateEntries_names_alike (c : Config) (reporter : Option Reporter) (s : Session)
    (entries : List (Text × Entry)) (hn : ∀ e ∈ entries, Path.IsName e.1)
    (hd : (entries.map Prod.fst).Nodup) :
    ∃ results, TakesFiles c reporter s (eligibleFiles c.extension entries) results
      (migrateEntries c reporter entries s) ∧ DistinctPaths c entries results := by
  obtain ⟨results, h⟩ := exists_takesFiles c reporter s entries hn
  exact ⟨results, h, h.distinctPaths hn hd⟩

/-- Names that a path could be thought to change: the bare suffix, dots, a blank in front and a
backslash. -/
def oddNames : List (Text × Entry) :=
  [(".ron".toList, .file (Utf8.encode "(name: \"x\", ty: \"Clip\", inner: (1))".toList)),
    ("...".toList, .directory), ("a\\..ron".toList, .file []), (" .ron".toList, .file [])]

/-- These entries beside an empty directory. -/
def oddlyNamed : Disk :=
  oddNames.foldl (fun d e => d.put [e.1] e.2) ((Disk.mk .empty []).put ["out".toList] .directory)

/-- The working directory as input, and a directory in it, both by a detour. -/
def detours : Config := ⟨"out/..//".toList, "./out/../out/".toList, ".ron".toList⟩

theorem migrateEntries_names_odd :
    let s := Session.start oddlyNamed
    let r := migrateEntries detours (some .console) oddNames s
    (∀ e ∈ oddNames, Path.IsName e.1) ∧ (oddNames.map Prod.fst).Nodup ∧
      r.2 = .ok [⟨".ron".toList, ".ron".toList, "out/.ron".toList, 1⟩,
        ⟨"a\\..ron".toList, "a\\..ron".toList, "out/a\\..ron".toList, 0⟩,
        ⟨" .ron".toList, " .ron".toList, "out/ .ron".toList, 0⟩] ∧
      ∃ results, TakesFiles detours (some .console) s (eligibleFiles ".ron".toList oddNames)
        results r ∧ DistinctPaths detours oddNames results := by
  intro s r
  have hn : ∀ e ∈ oddNames, Path.IsName e.1 := by
    have hentry : ∀ e ∈ oddNames, Disk.IsEntryName e.1 := by decide
    exact fun e he => (hentry e he).toIsName
  have hd : (oddNames.map Prod.fst).Nodup := by decide
  exact ⟨hn, hd, by rfl, migrateEntries_names_alike detours (some .console) s oddNames hn hd⟩

/-- A batch fails for one of its directories, or it takes the files of the listing under their own
names and by different paths. -/
theorem migrateDirectory_names_alike (c : Config) (reporter : Option Reporter) (s : Session)
    (hw : s.disk.WellFormed) :
    let made := (s.disk.ensureDirectory c.outputDir).1
    (∃ raised, migrateDirectory c reporter s = ({ s with disk := made }, .error raised)) ∨
    ∃ entries results files, made.list c.inputDir = .ok entries ∧
      TakesFiles c reporter (atListing c s entries) (eligibleFiles c.extension entries) results
        ((migrateDirectory c reporter s).1, files) ∧
      DistinctPaths c entries results ∧
      (migrateDirectory c reporter s).2 = files.map (⟨c.inputDir, c.outputDir, ·⟩) := by
  rcases migrateDirectory_cases c reporter s with
    ⟨fault, -, he⟩ | ⟨fault, -, -, he⟩ | ⟨entries, -, hlist, he⟩
  · exact .inl ⟨_, he⟩
  · exact .inl ⟨_, he⟩
  · obtain ⟨hnamed, hd⟩ := (Disk.ensureDirectory_grows hw c.outputDir).1.list_names hlist
    have hn : ∀ e ∈ entries, Path.IsName e.1 := fun e he => (hnamed e he).toIsName
    obtain ⟨results, h⟩ := exists_takesFiles c reporter (atListing c s entries) entries hn
    rw [he]
    exact .inr ⟨entries, results, _, hlist, h, h.distinctPaths hn hd, rfl⟩

end NodeReshape
