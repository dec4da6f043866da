import Mathlib.Data.List.Forall2
import NodeReshape.Proofs.FileMigration
import NodeReshape.Proofs.LinkFreeDisk

/-!
# How far a batch comes

A batch makes the output directory, lists the input directory and then takes one eligible file after
another. On a disk without links it leaves, wherever it ends, the directories that it made and the
reshaped contents of the first files of the listing, and it has told the reporter exactly these.
-/
namespace NodeReshape

/-- The regular files of a listing whose names end with the suffix, with their contents. -/
def eligibleFiles (extension : Text) (entries : List (Text × Entry)) : List (Text × Bytes) :=
  entries.filterMap fun e => match e.2 with
    | .file content => if extension <:+ e.1 then some (e.1, content) else none
    | _ => none

/-- The eligible files of the input directory, none when it cannot be listed. -/
def Disk.eligible (d : Disk) (c : Config) : List (Text × Bytes) :=
  match d.list c.inputDir with
  | .ok entries => eligibleFiles c.extension entries
  | .error _ => []

/-- The file as it is written. -/
def reshapedFile (f : Text × Bytes) : Text × Bytes :=
  (f.1, Utf8.encode (transform (Utf8.decode f.2)))

/-- The disk with these files in a directory. -/
def Disk.putFiles (d : Disk) (directory : Location) : List (Text × Bytes) → Disk
  | [] => d
  | f :: fs => (d.put (directory ++ [f.1]) (.file f.2)).putFiles directory fs

/-- The disk after these files were reshaped into the output directory. -/
def Disk.withReshaped (d : Disk) (c : Config) (files : List (Text × Bytes)) : Disk :=
  d.putFiles (d.spelled c.outputDir) (files.map reshapedFile)

/-- What a reporter, if there is one, is told about these files. -/
def told (reporter : Option Reporter) (files : List (Text × Bytes)) : List Notice :=
  match reporter with
  | none => []
  | some _ => files.map fun f => .fileTransformed f.1

/-- The result for a file of the input directory. -/
def fileResult (c : Config) (f : Text × Bytes) : FileResult :=
  ⟨f.1, Path.join c.inputDir f.1, Path.join c.outputDir f.1,
    (findFragments (Utf8.decode f.2)).length⟩

/-- How the pass over these files of a disk ends when `k` of them are written: after the last one,
at the next one that cannot be read or written by then, or when the reporter objects to the last
one written. -/
inductive PassEnd (c : Config) (reporter : Option Reporter) (earlier : List Notice) (d : Disk)
    (files : List (Text × Bytes)) : ℕ → Except Raised (List FileResult) → Prop where
  | finished : PassEnd c reporter earlier d files files.length (.ok (files.map (fileResult c)))
  | unread (k : ℕ) (f : Text × Bytes) (fault : AccessFault) (next : files[k]? = some f)
    (read : (d.withReshaped c (files.take k)).read (Path.join c.inputDir f.1) = .error fault) :
    PassEnd c reporter earlier d files k
      (.error (.file .fileRead (Path.join c.inputDir f.1) fault.raised))
  | unwritten (k : ℕ) (f : Text × Bytes) (fault : AccessFault) (next : files[k]? = some f)
    (written : (d.withReshaped c (files.take k)).write (Path.join c.outputDir f.1)
      (reshapedFile f).2 = .error fault) :
    PassEnd c reporter earlier d files k
      (.error (.file .fileWrite (Path.join c.outputDir f.1) fault.raised))
  | rejected (k : ℕ) (f : Text × Bytes) (r : Reporter) (e : Raised) (last : files[k]? = some f)
    (present : reporter = some r)
    (objection : r.objection (earlier ++ told reporter (files.take k)) (.fileTransformed f.1) =
      some e) : PassEnd c reporter earlier d files (k + 1) (.error e)

/-- How a batch on the disk ends when `k` files are written. -/
inductive BatchEnd (c : Config) (reporter : Option Reporter) (earlier : List Notice) (d : Disk) :
    ℕ → Except Raised BatchResult → Prop where
  | notMade (fault : AccessFault) (made : (d.ensureDirectory c.outputDir).2 = .error fault) :
    BatchEnd c reporter earlier d 0 (.error (.file .directoryCreate c.outputDir fault.raised))
  | notListed (fault : AccessFault) (made : (d.ensureDirectory c.outputDir).2 = .ok ())
    (listed : (d.ensureDirectory c.outputDir).1.list c.inputDir = .error fault) :
    BatchEnd c reporter earlier d 0 (.error (.file .directoryRead c.inputDir fault.raised))
  | passed (entries : List (Text × Entry)) (k : ℕ) (r : Except Raised (List FileResult))
    (made : (d.ensureDirectory c.outputDir).2 = .ok ())
    (listed : (d.ensureDirectory c.outputDir).1.list c.inputDir = .ok entries)
    (pass : PassEnd c reporter earlier (d.ensureDirectory c.outputDir).1
      (eligibleFiles c.extension entries) k r) :
    BatchEnd c reporter earlier d k (r.map fun files => ⟨c.inputDir, c.outputDir, files⟩)

section Files

variable {d : Disk} {l : Location}

theorem exists_content {e : Text × Entry} {extension : Text}
    (h : isEligible e.2.kind e.1 extension = true) : ∃ content, e.2 = .file content := by
  obtain ⟨name, entry⟩ := e
  cases entry with
  | file content => exact ⟨content, rfl⟩
  | directory => simp [isEligible, Entry.kind] at h
  | link t => simp [isEligible, Entry.kind] at h

theorem eligibleFiles_cons_of_eligible {extension name : Text} {content : Bytes}
    (rest : List (Text × Entry)) (h : isEligible .file name extension = true) :
    eligibleFiles extension ((name, .file content) :: rest) =
      (name, content) :: eligibleFiles extension rest := by
  have hs : extension <:+ name := by simpa [isEligible] using h
  simp [eligibleFiles, hs]

theorem eligibleFiles_cons_of_not {extension : Text} {e : Text × Entry}
    (rest : List (Text × Entry)) (h : ¬ isEligible e.2.kind e.1 extension = true) :
    eligibleFiles extension (e :: rest) = eligibleFiles extension rest := by
  obtain ⟨name, entry⟩ := e
  cases entry with
  | file content =>
    have hs : ¬ extension <:+ name := by simpa [isEligible, Entry.kind] using h
    simp [eligibleFiles, hs]
  | directory => simp [eligibleFiles]
  | link t => simp [eligibleFiles]

/-- The entries one after another, each either an eligible file or passed over. -/
@[elab_as_elim]
theorem eligibleFiles_induction {extension : Text}
    {motive : List (Text × Entry) → List (Text × Bytes) → Prop} (nil : motive [] [])
    (file : ∀ f rest files, isEligible .file f.1 extension = true → motive rest files →
      motive ((f.1, .file f.2) :: rest) (f :: files))
    (skip : ∀ e rest files, ¬ isEligible e.2.kind e.1 extension = true → motive rest files →
      motive (e :: rest) files) (entries : List (Text × Entry)) :
    motive entries (eligibleFiles extension entries) := by
  induction entries with
  | nil => exact nil
  | cons e rest ih =>
    by_cases h : isEligible e.2.kind e.1 extension = true
    · obtain ⟨content, hc⟩ := exists_content h
      obtain ⟨name, entry⟩ := e
      subst hc
      rw [eligibleFiles_cons_of_eligible rest h]
      exact file (name, content) rest _ h ih
    · rw [eligibleFiles_cons_of_not rest h]
      exact skip e rest _ h ih

theorem mem_eligibleFiles_iff {extension : Text} {entries : List (Text × Entry)}
    {f : Text × Bytes} :
    f ∈ eligibleFiles extension entries ↔ (f.1, .file f.2) ∈ entries ∧ extension <:+ f.1 := by
  obtain ⟨name, content⟩ := f
  simp only [eligibleFiles, List.mem_filterMap]
  constructor
  · rintro ⟨⟨n, e⟩, he, hf⟩
    cases e with
    | file x =>
      simp only [Option.ite_none_right_eq_some, Option.some.injEq, Prod.mk.injEq] at hf
      obtain ⟨hs, rfl, rfl⟩ := hf
      exact ⟨he, hs⟩
    | directory => simp at hf
    | link t => simp at hf
  · rintro ⟨he, hs⟩
    exact ⟨_, he, by simp [hs]⟩

theorem eligibleFiles_names_sublist (extension : Text) (entries : List (Text × Entry)) :
    ((eligibleFiles extension entries).map Prod.fst).Sublist (entries.map Prod.fst) := by
  induction entries using eligibleFiles_induction with
  | nil => exact .slnil
  | file f rest files _ ih => exact ih.cons_cons f.1
  | skip e rest files _ ih => exact ih.cons e.1

@[simp] theorem spelled_putFiles (d : Disk) (l : Location) (files : List (Text × Bytes))
    (p : Text) : (d.putFiles l files).spelled p = d.spelled p := by
  induction files generalizing d with
  | nil => rfl
  | cons f fs ih => rw [Disk.putFiles, ih, Disk.spelled_put]

theorem get?_putFiles_of_ne (files : List (Text × Bytes)) {k : Location}
    (h : ∀ f ∈ files, l ++ [f.1] ≠ k) : (d.putFiles l files).get? k = d.get? k := by
  induction files generalizing d with
  | nil => rfl
  | cons f fs ih =>
    rw [Disk.putFiles, ih fun g hg => h g (List.mem_cons_of_mem _ hg),
      Disk.get?_put_of_ne d _ (h f List.mem_cons_self)]

theorem get?_putFiles_of_mem {files : List (Text × Bytes)} (hn : (files.map Prod.fst).Nodup)
    {f : Text × Bytes} (hf : f ∈ files) :
    (d.putFiles l files).get? (l ++ [f.1]) = some (.file f.2) := by
  induction files generalizing d with
  | nil => simp at hf
  | cons g fs ih =>
    rw [List.map_cons, List.nodup_cons] at hn
    rw [Disk.putFiles]
    rcases List.mem_cons.mp hf with rfl | hf
    · rw [get?_putFiles_of_ne fs, Disk.get?_put_self]
      intro h hh he
      have : h.1 = f.1 := by simpa using he
      exact hn.1 (this ▸ List.mem_map_of_mem hh)
    · exact ih hn.2 hf

end Files

/-- The two directories of a batch are there, on a disk without links. -/
structure Ready (c : Config) (d : Disk) : Prop where
  wellFormed : d.WellFormed
  linkFree : d.LinkFree
  input : d.IsDirectory c.inputDir
  output : d.IsDirectory c.outputDir

/-- The paths of these files are short enough to be opened. -/
def InReach (c : Config) (files : List (Text × Bytes)) : Prop :=
  ∀ f ∈ files, Utf8.size (Path.join c.inputDir f.1) < Disk.pathLimit ∧
    Utf8.size (Path.join c.outputDir f.1) < Disk.pathLimit

section Loop

variable {c : Config} {reporter : Option Reporter} {s : Session}

theorem Ready.put {d : Disk} (h : Ready c d) {name : Text} (hn : Disk.IsEntryName name)
    (hd : d.get? (d.spelled c.outputDir ++ [name]) ≠ some .directory) (content : Bytes) :
    Ready c (d.put (d.spelled c.outputDir ++ [name]) (.file content)) := by
  have hstay : ∀ {p}, d.IsDirectory p →
      (d.put (d.spelled c.outputDir ++ [name]) (.file content)).IsDirectory p := by
    intro p hp
    have hne : d.spelled c.outputDir ++ [name] ≠ d.spelled p := fun he => hd (he ▸ hp.directory)
    refine ⟨hp.ne_nil, hp.noZero, ?_⟩
    rw [Disk.spelled_put, Disk.get?_put_of_ne d _ hne, hp.directory]
  exact ⟨h.wellFormed.put h.output.directory hn hd (by simp), h.linkFree.put _ (by simp),
    hstay h.input, hstay h.output⟩

/-- The session after a file was read and reshaped. -/
def afterReshaping (c : Config) (s : Session) (f : Text × Bytes) : Session :=
  s.log (reshapingEvent f.1 (Path.join c.inputDir f.1) (findFragments (Utf8.decode f.2)))

/-- One file is read and written, or one of the two is refused. -/
theorem migrateFile_cases (hr : Ready c s.disk) {f : Text × Bytes}
    (hf : s.disk.get? (s.disk.spelled c.inputDir ++ [f.1]) = some (.file f.2)) :
    (∃ fault, s.disk.read (Path.join c.inputDir f.1) = .error fault ∧
      migrateFile s (Path.join c.inputDir f.1) (Path.join c.outputDir f.1) =
        (s, .error (.file .fileRead (Path.join c.inputDir f.1) fault.raised))) ∨
    (∃ fault, s.disk.write (Path.join c.outputDir f.1) (reshapedFile f).2 = .error fault ∧
      migrateFile s (Path.join c.inputDir f.1) (Path.join c.outputDir f.1) =
        (afterReshaping c s f,
          .error (.file .fileWrite (Path.join c.outputDir f.1) fault.raised))) ∨
    (InReach c [f] ∧ s.disk.get? (s.disk.spelled c.outputDir ++ [f.1]) ≠ some .directory ∧
      migrateFile s (Path.join c.inputDir f.1) (Path.join c.outputDir f.1) =
        ({ afterReshaping c s f with
            disk := s.disk.put (s.disk.spelled c.outputDir ++ [f.1]) (.file (reshapedFile f).2) },
          .ok (fileResult c f))) := by
  have hn := hr.wellFormed.named _ _ _ hf
  have hfile := hr.input.read_join hr.wellFormed hr.linkFree hf
  have hbase := Path.base_join c.inputDir hn.toIsName
  rcases migrateFile_outcomes s (Path.join c.inputDir f.1) (Path.join c.outputDir f.1) with
    hunread | ⟨content, hread, hwritten⟩
  · exact .inl hunread
  rw [hread] at hfile
  split at hfile
  · simp at hfile
  rename_i hshort
  obtain rfl : content = f.2 := Except.ok.inj hfile
  rw [hbase] at hwritten
  rcases hwritten with ⟨fault, hwrite, he⟩ | ⟨d, hwrite, he⟩
  · exact .inr (.inl ⟨fault, hwrite, he⟩)
  · rcases hr.output.write_join hr.wellFormed hr.linkFree hn (reshapedFile f).2 with
      ⟨e, herror⟩ | ⟨hshort', hd, hput⟩
    · exact absurd (herror.symm.trans hwrite) (by simp)
    · obtain rfl := Except.ok.inj (hput.symm.trans hwrite)
      refine .inr (.inr ⟨fun g hg => ?_, hd, he⟩)
      rw [List.mem_singleton.mp hg]
      exact ⟨by omega, hshort'⟩

/-- The pass over these files has come to the `k`-th one: the first `k` are written and told to the
reporter, and everything else on the disk is as before. -/
structure PassedTo (c : Config) (reporter : Option Reporter) (s : Session)
    (files : List (Text × Bytes)) (k : ℕ) (r : Session × Except Raised (List FileResult)) :
    Prop where
  disk : r.1.disk = s.disk.withReshaped c (files.take k)
  notices : r.1.notices = s.notices ++ told reporter (files.take k)
  ending : PassEnd c reporter s.notices s.disk files k r.2
  inReach : InReach c (files.take k)
  ready : Ready c r.1.disk

@[simp] theorem told_nil (reporter : Option Reporter) : told reporter [] = [] := by
  cases reporter <;> rfl

theorem told_cons (reporter : Option Reporter) (f : Text × Bytes) (fs : List (Text × Bytes)) :
    told reporter (f :: fs) = told reporter [f] ++ told reporter fs := by
  cases reporter <;> rfl

/-- The end of a pass that goes on after its first file. -/
theorem PassEnd.cons {earlier : List Notice} {d : Disk} {files : List (Text × Bytes)} {k : ℕ}
    {r : Except Raised (List FileResult)} (f : Text × Bytes)
    (h : PassEnd c reporter (earlier ++ told reporter [f]) (d.withReshaped c [f]) files k r) :
    PassEnd c reporter earlier d (f :: files) (k + 1) (r.map (fileResult c f :: ·)) := by
  cases h with
  | finished => exact .finished
  | unread _ g fault next read => exact .unread (k + 1) g fault next read
  | unwritten _ g fault next written => exact .unwritten (k + 1) g fault next written
  | rejected k g r e last present objection =>
    refine .rejected (k + 1) g r e last present ?_
    rw [List.take_succ_cons, told_cons, ← List.append_assoc, objection]

theorem PassedTo.of_error {files : List (Text × Bytes)} (hr : Ready c s.disk) (s' : Session)
    (hdisk : s'.disk = s.disk) (hnotices : s'.notices = s.notices) {e : Raised}
    (h : PassEnd c reporter s.notices s.disk files 0 (.error e)) :
    PassedTo c reporter s files 0 (s', .error e) where
  disk := hdisk
  notices := by simp [hnotices]
  ending := h
  inReach := by simp [InReach]
  ready := hdisk ▸ hr

/-- The session after a file was written and told to the reporter. -/
def afterFile (c : Config) (reporter : Option Reporter) (s : Session) (f : Text × Bytes) :
    Session :=
  { afterReshaping c s f with
    disk := s.disk.put (s.disk.spelled c.outputDir ++ [f.1]) (.file (reshapedFile f).2)
    notices := s.notices ++ told reporter [f] }

/-- A pass that goes on after its first file. -/
theorem PassedTo.cons {f : Text × Bytes} {files : List (Text × Bytes)} {k : ℕ}
    {r : Session × Except Raised (List FileResult)} (hreach : InReach c [f])
    (h : PassedTo c reporter (afterFile c reporter s f) files k r) :
    PassedTo c reporter s (f :: files) (k + 1) (r.1, r.2.map (fileResult c f :: ·)) where
  disk := h.disk
  notices := by
    rw [List.take_succ_cons, told_cons, ← List.append_assoc]
    exact h.notices
  ending := h.ending.cons f
  inReach g hg := by
    rw [List.take_succ_cons] at hg
    rcases List.mem_cons.mp hg with rfl | hg
    · exact hreach g List.mem_cons_self
    · exact h.inReach g hg
  ready := h.ready

theorem report_cases (s : Session) (reporter : Option Reporter) (f : Text × Bytes) :
    s.report reporter (.fileTransformed f.1) =
      ({ s with notices := s.notices ++ told reporter [f] }, .ok ()) ∨
    ∃ r e, reporter = some r ∧ r.objection s.notices (.fileTransformed f.1) = some e ∧
      s.report reporter (.fileTransformed f.1) =
        ({ s with notices := s.notices ++ told reporter [f] }, .error e) := by
  cases reporter with
  | none => exact .inl (by simp [Session.report, told])
  | some r =>
    cases ho : r.objection s.notices (.fileTransformed f.1) with
    | none => exact .inl (by simp [Session.report, told, ho])
    | some e => exact .inr ⟨r, e, rfl, ho, by simp [Session.report, told, ho]⟩

theorem PassEnd.of_ok {earlier : List Notice} {d : Disk} {files : List (Text × Bytes)} {k : ℕ}
    {results : List FileResult} (h : PassEnd c reporter earlier d files k (.ok results)) :
    k = files.length ∧ results = files.map (fileResult c) := by
  cases h
  exact ⟨rfl, rfl⟩

/-- A file that was passed can be read under its output path as it was reshaped. -/
theorem PassedTo.read_output {files : List (Text × Bytes)} {k : ℕ}
    {r : Session × Except Raised (List FileResult)} (h : PassedTo c reporter s files k r)
    (hn : (files.map Prod.fst).Nodup) {f : Text × Bytes} (hf : f ∈ files.take k) :
    r.1.disk.read (Path.join c.outputDir f.1) = .ok (reshapedFile f).2 := by
  have hnames : (((files.take k).map reshapedFile).map Prod.fst).Nodup := by
    have hmap : ((files.take k).map reshapedFile).map Prod.fst = (files.take k).map Prod.fst := by
      rw [List.map_map]
      rfl
    rw [hmap]
    exact ((List.take_sublist k files).map Prod.fst).nodup hn
  have hget := get?_putFiles_of_mem (d := s.disk) (l := s.disk.spelled c.outputDir) hnames
    (List.mem_map_of_mem hf)
  have hspelled : r.1.disk.spelled c.outputDir = s.disk.spelled c.outputDir := by
    rw [h.disk, Disk.withReshaped, spelled_putFiles]
  rw [← Disk.withReshaped, ← h.disk, ← hspelled] at hget
  have hshort := (h.inReach f hf).2
  have hread := h.ready.output.read_join h.ready.wellFormed h.ready.linkFree hget
  rw [if_neg (by simp only [reshapedFile]; omega)] at hread
  exact hread

/-- At an eligible file the pass ends, before it is written or when the reporter objects to it, or
the pass goes on behind it. -/
theorem migrateEntries_step (f : Text × Bytes) (rest : List (Text × Entry))
    (files : List (Text × Bytes)) (hr : Ready c s.disk)
    (he : isEligible .file f.1 c.extension = true)
    (hf : s.disk.get? (s.disk.spelled c.inputDir ++ [f.1]) = some (.file f.2)) :
    (∃ k, PassedTo c reporter s (f :: files) k
      (migrateEntries c reporter ((f.1, .file f.2) :: rest) s)) ∨
    (InReach c [f] ∧ Ready c (afterFile c reporter s f).disk ∧
      migrateEntries c reporter ((f.1, .file f.2) :: rest) s =
        ((migrateEntries c reporter rest (afterFile c reporter s f)).1,
          (migrateEntries c reporter rest (afterFile c reporter s f)).2.map
            (fileResult c f :: ·))) := by
  have hkind : isEligible (Entry.file f.2).kind f.1 c.extension = true := he
  rw [migrateEntries, if_pos hkind]
  rcases migrateFile_cases hr hf with ⟨fault, hread, hm⟩ | ⟨fault, hwrite, hm⟩ | ⟨hreach, hd, hm⟩
  · rw [hm]
    exact .inl ⟨0, .of_error hr s rfl rfl (.unread 0 f fault rfl hread)⟩
  · rw [hm]
    exact .inl ⟨0, .of_error hr (afterReshaping c s f) rfl rfl (.unwritten 0 f fault rfl hwrite)⟩
  · rw [hm]
    have hready := hr.put (hr.wellFormed.named _ _ _ hf) hd (reshapedFile f).2
    dsimp only
    rcases report_cases _ reporter f with hrep | ⟨r, e, hsome, ho, hrep⟩
    · rw [hrep]
      exact .inr ⟨hreach, hready, rfl⟩
    · rw [hrep]
      have hobj : r.objection (s.notices ++ told reporter []) (.fileTransformed f.1) = some e := by
        rw [told_nil, List.append_nil]
        exact ho
      exact .inl ⟨1, rfl, rfl, .rejected 0 f r e rfl hsome hobj, hreach, hready⟩

/-- A file is written under its own name, so that no other name in the input directory changes. -/
theorem get?_afterFile {f g : Text × Bytes} (h : f.1 ≠ g.1) :
    (afterFile c reporter s f).disk.get? (s.disk.spelled c.inputDir ++ [g.1]) =
      s.disk.get? (s.disk.spelled c.inputDir ++ [g.1]) :=
  Disk.get?_put_of_ne _ _ fun he => h (List.singleton_inj.mp (List.append_inj' he rfl).2)

theorem migrateEntries_passedTo (entries : List (Text × Entry)) (hr : Ready c s.disk)
    (hn : ((eligibleFiles c.extension entries).map Prod.fst).Nodup)
    (hf : ∀ f ∈ eligibleFiles c.extension entries,
      s.disk.get? (s.disk.spelled c.inputDir ++ [f.1]) = some (.file f.2)) :
    ∃ k, PassedTo c reporter s (eligibleFiles c.extension entries) k
      (migrateEntries c reporter entries s) := by
  induction entries using eligibleFiles_induction generalizing s with
  | nil => exact ⟨0, rfl, by simp [migrateEntries], .finished, by simp [InReach], hr⟩
  | file f rest files he ih =>
    obtain ⟨hnew, hn⟩ := List.nodup_cons.mp hn
    rcases migrateEntries_step f rest files hr he (hf f List.mem_cons_self) with
      hstop | ⟨hreach, hready, hgo⟩
    · exact hstop
    · obtain ⟨k, h⟩ := ih hready hn fun g hg => by
        have hne : f.1 ≠ g.1 := fun h => hnew (List.mem_map.mpr ⟨g, hg, h.symm⟩)
        exact (get?_afterFile hne).trans (hf g (List.mem_cons_of_mem _ hg))
      rw [hgo]
      exact ⟨k + 1, h.cons hreach⟩
  | skip e rest files he ih =>
    obtain ⟨k, h⟩ := ih (s := s.log (.entrySkipped e.1)) hr hn hf
    rw [migrateEntries, if_neg he]
    exact ⟨k, h.disk, h.notices, h.ending, h.inReach, h.ready⟩

end Loop

section Directory

variable {c : Config} {reporter : Option Reporter} {s : Session}

/-- The session when the pass over the listed entries begins. -/
def atListing (c : Config) (s : Session) (entries : List (Text × Entry)) : Session :=
  { s with disk := (s.disk.ensureDirectory c.outputDir).1 }.log (.batchStarted c entries.length)

/-- A batch fails for one of its directories, or it passes over the entries that it lists. -/
theorem migrateDirectory_cases (c : Config) (reporter : Option Reporter) (s : Session) :
    (∃ fault, (s.disk.ensureDirectory c.outputDir).2 = .error fault ∧
      migrateDirectory c reporter s = ({ s with disk := (s.disk.ensureDirectory c.outputDir).1 },
        .error (.file .directoryCreate c.outputDir fault.raised))) ∨
    (∃ fault, (s.disk.ensureDirectory c.outputDir).2 = .ok () ∧
      (s.disk.ensureDirectory c.outputDir).1.list c.inputDir = .error fault ∧
      migrateDirectory c reporter s = ({ s with disk := (s.disk.ensureDirectory c.outputDir).1 },
        .error (.file .directoryRead c.inputDir fault.raised))) ∨
    ∃ entries, (s.disk.ensureDirectory c.outputDir).2 = .ok () ∧
      (s.disk.ensureDirectory c.outputDir).1.list c.inputDir = .ok entries ∧
      migrateDirectory c reporter s =
        ((migrateEntries c reporter entries (atListing c s entries)).1,
          (migrateEntries c reporter entries (atListing c s entries)).2.map fun files =>
            ⟨c.inputDir, c.outputDir, files⟩) := by
  rcases he : s.disk.ensureDirectory c.outputDir with ⟨d, fault | _⟩
  · refine .inl ⟨fault, rfl, ?_⟩
    simp only [migrateDirectory, he, AccessFault.failure_raised]
  · cases hlist : d.list c.inputDir with
    | error fault =>
      refine .inr (.inl ⟨fault, rfl, rfl, ?_⟩)
      simp only [migrateDirectory, he, hlist, AccessFault.failure_raised]
    | ok entries =>
      exact .inr (.inr ⟨entries, rfl, rfl, by simp only [migrateDirectory, he, hlist, atListing]⟩)

theorem eligible_of_listed {d : Disk} {entries : List (Text × Entry)}
    (h : d.list c.inputDir = .ok entries) : d.eligible c = eligibleFiles c.extension entries := by
  rw [Disk.eligible, h]

variable (hw : s.disk.WellFormed) (hl : s.disk.LinkFree)

include hw hl

theorem ready_of_listed {entries : List (Text × Entry)}
    (h : (s.disk.ensureDirectory c.outputDir).2 = .ok ())
    (hlist : (s.disk.ensureDirectory c.outputDir).1.list c.inputDir = .ok entries) :
    Ready c (s.disk.ensureDirectory c.outputDir).1 ∧
      entries = (s.disk.ensureDirectory c.outputDir).1.children (s.disk.spelled c.inputDir) := by
  obtain ⟨hw', hg⟩ := Disk.ensureDirectory_grows hw c.outputDir
  obtain ⟨hin, he⟩ := (hg.linkFree hl).list_eq hw' hlist
  exact ⟨⟨hw', hg.linkFree hl, hin, hl.isDirectory_of_ensure hw h⟩, by rw [he, hg.spelled]⟩

/-- The eligible files are files of the input directory from before the output directory was
made. -/
theorem get?_of_mem_eligible {f : Text × Bytes}
    (hf : f ∈ (s.disk.ensureDirectory c.outputDir).1.eligible c) :
    s.disk.get? (s.disk.spelled c.inputDir ++ [f.1]) = some (.file f.2) := by
  obtain ⟨hw', hg⟩ := Disk.ensureDirectory_grows hw c.outputDir
  unfold Disk.eligible at hf
  split at hf
  · rename_i entries hlist
    obtain ⟨-, he⟩ := (hg.linkFree hl).list_eq hw' hlist
    rw [he, hg.spelled] at hf
    exact hg.get?_eq_file_iff.mp (Disk.mem_children_iff.mp (mem_eligibleFiles_iff.mp hf).1)
  · simp at hf

theorem eligible_nodup :
    (((s.disk.ensureDirectory c.outputDir).1.eligible c).map Prod.fst).Nodup := by
  obtain ⟨hw', hg⟩ := Disk.ensureDirectory_grows hw c.outputDir
  unfold Disk.eligible
  split
  · rename_i entries hlist
    obtain ⟨-, rfl⟩ := (hg.linkFree hl).list_eq hw' hlist
    exact (eligibleFiles_names_sublist _ _).nodup (Disk.children_nodup _ _)
  · simp

theorem migrateEntries_of_listed (reporter : Option Reporter) {entries : List (Text × Entry)}
    (h : (s.disk.ensureDirectory c.outputDir).2 = .ok ())
    (hlist : (s.disk.ensureDirectory c.outputDir).1.list c.inputDir = .ok entries) :
    ∃ k, PassedTo c reporter (atListing c s entries) (eligibleFiles c.extension entries) k
      (migrateEntries c reporter entries (atListing c s entries)) := by
  have hg := (Disk.ensureDirectory_grows hw c.outputDir).2
  refine migrateEntries_passedTo entries (ready_of_listed hw hl h hlist).1 ?_ fun f hf => ?_
  · rw [← eligible_of_listed hlist]
    exact eligible_nodup hw hl
  · rw [← eligible_of_listed hlist] at hf
    have hfile := hg.get?_eq_some (get?_of_mem_eligible hw hl hf)
    rwa [← hg.spelled] at hfile

end Directory

/-- Wherever a batch ends on a disk without links, the directories on the way to the output
directory are made, and the first so many eligible files are written there and told to the reporter.
Nothing else on the disk has changed. -/
theorem migrateDirectory_writes_first (c : Config) (reporter : Option Reporter) (s : Session)
    (hw : s.disk.WellFormed) (hl : s.disk.LinkFree) :
    ∃ k, let made := (s.disk.ensureDirectory c.outputDir).1
      let files := (made.eligible c).take k
      let r := migrateDirectory c reporter s
      Disk.GrowsTo (s.disk.OnTheWay c.outputDir) s.disk made ∧
      (∀ f ∈ files, s.disk.get? (s.disk.spelled c.inputDir ++ [f.1]) = some (.file f.2)) ∧
      r.1.disk = made.withReshaped c files ∧
      r.1.notices = s.notices ++ told reporter files ∧
      BatchEnd c reporter s.notices s.disk k r.2 := by
  have hway := hl.ensureDirectory_onTheWay hw c.outputDir
  have hfiles : ∀ k, ∀ f ∈ ((s.disk.ensureDirectory c.outputDir).1.eligible c).take k,
      s.disk.get? (s.disk.spelled c.inputDir ++ [f.1]) = some (.file f.2) := fun k f hf =>
    get?_of_mem_eligible hw hl (List.mem_of_mem_take hf)
  rcases migrateDirectory_cases c reporter s with
    ⟨fault, hmade, he⟩ | ⟨fault, hmade, hlist, he⟩ | ⟨entries, hmade, hlist, he⟩
  · rw [he]
    exact ⟨0, hway, hfiles 0, rfl, by simp, .notMade fault hmade⟩
  · rw [he]
    exact ⟨0, hway, hfiles 0, rfl, by simp, .notListed fault hmade hlist⟩
  · obtain ⟨k, h⟩ := migrateEntries_of_listed hw hl reporter hmade hlist
    rw [he]
    refine ⟨k, hway, hfiles k, ?_, ?_, .passed entries k _ hmade hlist h.ending⟩
    · rw [eligible_of_listed hlist]
      exact h.disk
    · rw [eligible_of_listed hlist]
      exact h.notices

/-- A directory with two graphs, one of them with an old node, and a file of another kind. -/
def graphs : Disk :=
  ((((Disk.mk .empty []).put ["in".toList] .directory).put ["in".toList, "a.ron".toList]
    (.file (Utf8.encode "(name: \"x\", ty: \"Clip\", inner: (1))".toList))).put
    ["in".toList, "b.ron".toList] (.file [])).put ["in".toList, "c.txt".toList] (.file [])

/-- The directory of `graphs`, both as input and as output. -/
def inPlace : Config := ⟨"in/.".toList, "./new/../in".toList, ".ron".toList⟩

theorem migrateDirectory_writes_first_graph :
    let s := Session.start graphs
    let reporter : Option Reporter := some ⟨fun _ _ => some (.plain [] none)⟩
    s.disk.WellFormed ∧ s.disk.LinkFree ∧
    ∃ k, let made := (s.disk.ensureDirectory inPlace.outputDir).1
      let files := (made.eligible inPlace).take k
      let r := migrateDirectory inPlace reporter s
      Disk.GrowsTo (s.disk.OnTheWay inPlace.outputDir) s.disk made ∧
      (∀ f ∈ files, s.disk.get? (s.disk.spelled inPlace.inputDir ++ [f.1]) = some (.file f.2)) ∧
      r.1.disk = made.withReshaped inPlace files ∧
      r.1.notices = s.notices ++ told reporter files ∧
      BatchEnd inPlace reporter s.notices s.disk k r.2 := by
  have hw : graphs.WellFormed := by decide +kernel
  have hl : graphs.LinkFree := by decide +kernel
  exact ⟨hw, hl, migrateDirectory_writes_first inPlace _ (.start graphs) hw hl⟩

/-- What became of a file of the input directory, and what is said about it. -/
structure FileMigrated (c : Config) (before after : Disk) (f : Text × Bytes) (r : FileResult) :
    Prop where
  fileName : r.fileName = f.1
  inputPath : r.inputPath = Path.join c.inputDir f.1
  outputPath : r.outputPath = Path.join c.outputDir f.1
  content : before.read r.inputPath = .ok f.2
  written : after.read r.outputPath = .ok (Utf8.encode (transform (Utf8.decode f.2)))
  fragmentCount : r.fragmentCount = (findFragments (Utf8.decode f.2)).length

/-- A file of the input directory can be read under its input path before the output directory is
made. -/
theorem read_input (c : Config) (s : Session) {f : Text × Bytes} (hw : s.disk.WellFormed)
    (hl : s.disk.LinkFree) (hready : Ready c (s.disk.ensureDirectory c.outputDir).1)
    (hf : f ∈ (s.disk.ensureDirectory c.outputDir).1.eligible c)
    (hshort : Utf8.size (Path.join c.inputDir f.1) < Disk.pathLimit) :
    s.disk.read (Path.join c.inputDir f.1) = .ok f.2 := by
  have hfile := get?_of_mem_eligible hw hl hf
  have hin : s.disk.IsDirectory c.inputDir :=
    ⟨hready.input.ne_nil, hready.input.noZero, hw.parent _ _ _ hfile⟩
  rw [hin.read_join hw hl hfile, if_neg (by omega)]

/-- A batch that ends well on a disk without links has migrated the eligible entries of the listing,
each once and in this order. -/
theorem migrateDirectory_migrates_eligible (c : Config) (reporter : Option Reporter) (s : Session)
    (result : BatchResult) (hw : s.disk.WellFormed) (hl : s.disk.LinkFree)
    (h : (migrateDirectory c reporter s).2 = .ok result) :
    ∃ entries, (s.disk.ensureDirectory c.outputDir).1.list c.inputDir = .ok entries ∧
      (entries.map Prod.fst).Nodup ∧
      List.Forall₂ (FileMigrated c s.disk (migrateDirectory c reporter s).1.disk)
        (eligibleFiles c.extension entries) result.files ∧
      (migrateDirectory c reporter s).1.notices =
        s.notices ++ told reporter (eligibleFiles c.extension entries) ∧
      result.inputDir = c.inputDir ∧ result.outputDir = c.outputDir := by
  rcases migrateDirectory_cases c reporter s with
    ⟨fault, -, he⟩ | ⟨fault, -, -, he⟩ | ⟨entries, hmade, hlist, he⟩
  · simp [he] at h
  · simp [he] at h
  · obtain ⟨k, hp⟩ := migrateEntries_of_listed hw hl reporter hmade hlist
    have hready := (ready_of_listed hw hl hmade hlist).1
    rw [he] at h ⊢
    cases hr : (migrateEntries c reporter entries (atListing c s entries)).2 with
    | error e => simp [hr, Except.map] at h
    | ok results =>
      have hending := hp.ending
      rw [hr] at h hending
      obtain ⟨rfl, rfl⟩ := hending.of_ok
      obtain rfl := Except.ok.inj h
      have hnodup : ((eligibleFiles c.extension entries).map Prod.fst).Nodup := by
        rw [← eligible_of_listed hlist]
        exact eligible_nodup hw hl
      have hall : (eligibleFiles c.extension entries).take
          (eligibleFiles c.extension entries).length = eligibleFiles c.extension entries :=
        List.take_length
      refine ⟨entries, hlist, ?_, ?_, ?_, rfl, rfl⟩
      · rw [(ready_of_listed hw hl hmade hlist).2]
        exact Disk.children_nodup _ _
      · rw [List.forall₂_map_right_iff, List.forall₂_same]
        intro f hf
        have hshort := (hp.inReach f (by rwa [hall])).1
        rw [← eligible_of_listed hlist] at hf
        exact ⟨rfl, rfl, rfl, read_input c s hw hl hready hf hshort,
          hp.read_output hnodup (by rwa [hall, ← eligible_of_listed hlist]), rfl⟩
      · rw [hp.notices, hall]
        rfl

theorem migrateDirectory_migrates_graphs :
    let s := Session.start graphs
    let r := migrateDirectory inPlace (some .console) s
    ∃ result, s.disk.WellFormed ∧ s.disk.LinkFree ∧ r.2 = .ok result ∧
    ∃ entries, (s.disk.ensureDirectory inPlace.outputDir).1.list inPlace.inputDir = .ok entries ∧
      (entries.map Prod.fst).Nodup ∧
      List.Forall₂ (FileMigrated inPlace s.disk r.1.disk)
        (eligibleFiles inPlace.extension entries) result.files ∧
      r.1.notices = s.notices ++ told (some .console) (eligibleFiles inPlace.extension entries) ∧
      result.inputDir = inPlace.inputDir ∧ result.outputDir = inPlace.outputDir := by
  have hw : graphs.WellFormed := by decide +kernel
  have hl : graphs.LinkFree := by decide +kernel
  let result : BatchResult := ⟨inPlace.inputDir, inPlace.outputDir,
    [⟨"a.ron".toList, "in/a.ron".toList, "in/a.ron".toList, 1⟩,
      ⟨"b.ron".toList, "in/b.ron".toList, "in/b.ron".toList, 0⟩]⟩
  have hok : (migrateDirectory inPlace (some .console) (.start graphs)).2 = .ok result := by rfl
  exact ⟨result, hw, hl, hok, migrateDirectory_migrates_eligible inPlace (some .console)
    (.start graphs) result hw hl hok⟩

end NodeReshape
