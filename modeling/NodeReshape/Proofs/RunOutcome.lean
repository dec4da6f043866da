import NodeReshape.Proofs.DirectoryLookup
import NodeReshape.Proofs.InputPreservation

/-!
# How a run ends

A run tells its reporter of one file after another, and of its completion when all are done. The
reporter may raise something each time. Whatever is raised, there or by the settings or the file
system, ends the run with the code 1 and is the only error that is logged. The last thing logged is
this error, or the number of files when nothing was raised.
-/
namespace NodeReshape

/-- A session has gone on: its reporter was told these notices, and no error was logged. -/
structure Session.Tells (s : Session) (notices : List Notice) (s' : Session) : Prop where
  notices : s'.notices = s.notices ++ notices
  events : ∃ logged, s'.events = s.events ++ logged ∧ ∀ e ∈ logged, e.level ≠ .error

namespace Session.Tells

variable {s s' s'' : Session}

theorem nothing (hn : s'.notices = s.notices) (he : s'.events = s.events) : s.Tells [] s' :=
  ⟨by rw [hn, List.append_nil], [], by rw [he, List.append_nil], by simp⟩

theorem log {e : Event} (h : e.level ≠ .error) : s.Tells [] (s.log e) :=
  ⟨(List.append_nil _).symm, [e], rfl, by simpa using h⟩

theorem trans {notices notices' : List Notice} (h : s.Tells notices s')
    (h' : s'.Tells notices' s'') : s.Tells (notices ++ notices') s'' := by
  obtain ⟨logged, he, herror⟩ := h.events
  obtain ⟨logged', he', herror'⟩ := h'.events
  refine ⟨by rw [h'.notices, h.notices, List.append_assoc], logged ++ logged', ?_, ?_⟩
  · rw [he', he, List.append_assoc]
  · intro e hm
    rcases List.mem_append.mp hm with hm | hm
    · exact herror e hm
    · exact herror' e hm

/-- Nothing was told before these notices. -/
theorem after (h : s.Tells [] s') {notices : List Notice} (h' : s'.Tells notices s'') :
    s.Tells notices s'' :=
  h.trans h'

end Session.Tells

namespace Session

/-- The session when its reporter is told a notice. -/
def tell (s : Session) (n : Notice) : Session := { s with notices := s.notices ++ [n] }

theorem tells_tell (s : Session) (n : Notice) : s.Tells [n] (s.tell n) :=
  ⟨rfl, [], (List.append_nil _).symm, by simp⟩

theorem report_of_none {s : Session} {reporter : Reporter} {n : Notice}
    (h : reporter.objection s.notices n = none) : s.report (some reporter) n = (s.tell n, .ok ()) := by
  simp only [report, h, tell]

theorem report_of_some {s : Session} {reporter : Reporter} {n : Notice} {e : Raised}
    (h : reporter.objection s.notices n = some e) :
    s.report (some reporter) n = (s.tell n, .error e) := by
  simp only [report, h, tell]

end Session

theorem level_reshapingEvent (fileName inputPath : Text) (fragments : List Fragment) :
    (reshapingEvent fileName inputPath fragments).level ≠ .error := by
  unfold reshapingEvent
  split <;> simp [Event.level]

/-- A single file tells the reporter nothing. What it raises is a failure of the file system. -/
theorem migrateFile_tells (s : Session) (inputPath outputPath : Text) :
    let r := migrateFile s inputPath outputPath
    s.Tells [] r.1 ∧ match r.2 with
      | .ok file => file.fileName = Path.base inputPath
      | .error e => ∃ fault path cause, e = .file fault path cause := by
  have hlog (content : Bytes) := Session.Tells.log (s := s) (level_reshapingEvent
    (Path.base inputPath) inputPath (findFragments (Utf8.decode content)))
  rcases migrateFile_outcomes s inputPath outputPath with
    ⟨fault, -, he⟩ | ⟨content, -, ⟨fault, -, he⟩ | ⟨d, -, he⟩⟩
  · rw [he]
    exact ⟨.nothing rfl rfl, _, _, _, rfl⟩
  · rw [he]
    exact ⟨hlog content, _, _, _, rfl⟩
  · rw [he]
    exact ⟨(hlog content).trans (.nothing rfl rfl), rfl⟩

/-- The reporter raises nothing at any of these notices when it was told others earlier. -/
def Reporter.Accepts (r : Reporter) (earlier : List Notice) : List Notice → Prop
  | [] => True
  | n :: rest => r.objection earlier n = none ∧ r.Accepts (earlier ++ [n]) rest

theorem Reporter.Accepts.concat {r : Reporter} {earlier notices : List Notice}
    (h : r.Accepts earlier notices) {n : Notice} (hn : r.objection (earlier ++ notices) n = none) :
    r.Accepts earlier (notices ++ [n]) := by
  induction notices generalizing earlier with
  | nil =>
    rw [List.append_nil] at hn
    exact ⟨hn, trivial⟩
  | cons m rest ih =>
    obtain ⟨hm, hrest⟩ := h
    exact ⟨hm, ih hrest (by rwa [List.append_assoc])⟩

/-- How the pass over files of these names ends, and what it tells a reporter that was told other
notices earlier. -/
inductive PassReport (reporter : Reporter) : List Notice → List Text → List Notice →
    Except Raised (List FileResult) → Prop
  | finished (earlier : List Notice) : PassReport reporter earlier [] [] (.ok [])
  | failed (earlier : List Notice) (names : List Text) (fault : FileFault) (path : Text)
    (cause : Raised) : PassReport reporter earlier names [] (.error (.file fault path cause))
  | rejected (earlier : List Notice) (name : Text) (names : List Text) (e : Raised)
    (objection : reporter.objection earlier (.fileTransformed name) = some e) :
    PassReport reporter earlier (name :: names) [.fileTransformed name] (.error e)
  | next (earlier : List Notice) (name : Text) (names : List Text) (notices : List Notice)
    (file : FileResult) (r : Except Raised (List FileResult)) (named : file.fileName = name)
    (accepted : reporter.objection earlier (.fileTransformed name) = none)
    (rest : PassReport reporter (earlier ++ [.fileTransformed name]) names notices r) :
    PassReport reporter earlier (name :: names) (.fileTransformed name :: notices)
      (r.map (file :: ·))

/-- What is raised after the reporter was told these notices: a failure of the file system, or what
the reporter raises at the last of them. It has raised nothing at the others. -/
inductive RaisedAfter (reporter : Reporter) (earlier : List Notice) : List Notice → Raised → Prop
  | file (notices : List Notice) (fault : FileFault) (path : Text) (cause : Raised)
    (accepted : reporter.Accepts earlier notices) :
    RaisedAfter reporter earlier notices (.file fault path cause)
  | objection (front : List Notice) (n : Notice) (e : Raised)
    (accepted : reporter.Accepts earlier front)
    (objection : reporter.objection (earlier ++ front) n = some e) :
    RaisedAfter reporter earlier (front ++ [n]) e

section Pass

variable {c : Config} {reporter : Reporter} {s : Session} {earlier notices : List Notice}
  {names : List Text}

theorem RaisedAfter.cons {n : Notice} {e : Raised} (hn : reporter.objection earlier n = none)
    (h : RaisedAfter reporter (earlier ++ [n]) notices e) :
    RaisedAfter reporter earlier (n :: notices) e := by
  cases h with
  | file _ fault path cause haccepted => exact .file _ fault path cause ⟨hn, haccepted⟩
  | objection front last e haccepted h =>
    rw [List.append_assoc] at h
    exact .objection (n :: front) last e ⟨hn, haccepted⟩ h

theorem PassReport.of_ok {results : List FileResult}
    (h : PassReport reporter earlier names notices (.ok results)) :
    notices = names.map .fileTransformed ∧ results.map FileResult.fileName = names ∧
      reporter.Accepts earlier notices := by
  generalize hr : Except.ok results = r at h
  induction h generalizing results with
  | finished =>
    cases hr
    exact ⟨rfl, rfl, trivial⟩
  | failed => cases hr
  | rejected => cases hr
  | next earlier name names notices file r hname haccepted rest ih =>
    cases r with
    | error e => cases hr
    | ok others =>
      cases hr
      obtain ⟨hnotices, hnames, hothers⟩ := ih rfl
      refine ⟨?_, ?_, haccepted, hothers⟩
      · rw [hnotices, List.map_cons]
      · rw [List.map_cons, hname, hnames]

theorem PassReport.of_error {e : Raised}
    (h : PassReport reporter earlier names notices (.error e)) :
    notices <+: names.map .fileTransformed ∧ RaisedAfter reporter earlier notices e := by
  generalize hr : Except.error e = r at h
  induction h with
  | finished => cases hr
  | failed earlier names fault path cause =>
    cases hr
    exact ⟨List.nil_prefix, .file _ fault path cause trivial⟩
  | rejected earlier name names e' objection =>
    cases hr
    refine ⟨by simp, .objection [] _ e trivial ?_⟩
    rwa [List.append_nil]
  | next earlier name names notices file r hname haccepted rest ih =>
    cases r with
    | ok others => cases hr
    | error e' =>
      cases hr
      obtain ⟨hfirst, hraised⟩ := ih rfl
      exact ⟨by simpa using hfirst, hraised.cons haccepted⟩

theorem migrateEntries_report (reporter : Reporter) (s : Session) (entries : List (Text × Entry))
    (hbase : ∀ f ∈ eligibleFiles c.extension entries, Path.base (Path.join c.inputDir f.1) = f.1) :
    ∃ notices, s.Tells notices (migrateEntries c (some reporter) entries s).1 ∧
      PassReport reporter s.notices ((eligibleFiles c.extension entries).map Prod.fst) notices
        (migrateEntries c (some reporter) entries s).2 := by
  induction entries using eligibleFiles_induction generalizing s with
  | nil => exact ⟨[], .nothing rfl rfl, .finished _⟩
  | skip e rest files he ih =>
    obtain ⟨notices, htells, hreport⟩ := ih (s.log (.entrySkipped e.1)) hbase
    rw [migrateEntries, if_neg he]
    have hlog : s.Tells [] (s.log (.entrySkipped e.1)) := .log (by simp [Event.level])
    exact ⟨notices, hlog.after htells, hreport⟩
  | file f rest files he ih =>
    have hkind : isEligible (Entry.file f.2).kind f.1 c.extension = true := he
    rw [migrateEntries, if_pos hkind]
    have hfile := migrateFile_tells s (Path.join c.inputDir f.1) (Path.join c.outputDir f.1)
    rcases hm : migrateFile s (Path.join c.inputDir f.1) (Path.join c.outputDir f.1) with
      ⟨s', e | file⟩
    · rw [hm] at hfile
      obtain ⟨htells, fault, path, cause, rfl⟩ := hfile
      exact ⟨[], htells, .failed _ _ fault path cause⟩
    · rw [hm] at hfile
      obtain ⟨htells, hname⟩ := hfile
      rw [hbase f List.mem_cons_self] at hname
      have hearlier : s'.notices = s.notices := by rw [htells.notices, List.append_nil]
      have htold := htells.after (s'.tells_tell (.fileTransformed f.1))
      dsimp only
      cases hobjection : reporter.objection s'.notices (.fileTransformed f.1) with
      | some e =>
        rw [Session.report_of_some hobjection]
        rw [hearlier] at hobjection
        exact ⟨_, htold, .rejected _ f.1 _ e hobjection⟩
      | none =>
        obtain ⟨notices, hrest, hreport⟩ := ih (s'.tell (.fileTransformed f.1)) fun g hg =>
          hbase g (List.mem_cons_of_mem _ hg)
        rw [Session.report_of_none hobjection]
        rw [hearlier] at hobjection
        rw [htold.notices] at hreport
        exact ⟨_, htold.trans hrest, .next _ f.1 _ notices file _ hname hobjection hreport⟩

end Pass

/-- The notices of a batch on the disk: one for each eligible file of the input directory, in the
order of the listing. -/
def Disk.fileNotices (d : Disk) (c : Config) : List Notice :=
  ((d.ensureDirectory c.outputDir).1.eligible c).map fun f => .fileTransformed f.1

theorem base_join_of_listed {c : Config} {d : Disk} (hw : d.WellFormed)
    {entries : List (Text × Entry)} (h : d.list c.inputDir = .ok entries) {f : Text × Bytes}
    (hf : f ∈ eligibleFiles c.extension entries) :
    Path.base (Path.join c.inputDir f.1) = f.1 := by
  have hname := (hw.list_names h).1 _ (mem_eligibleFiles_iff.mp hf).1
  exact Path.base_join c.inputDir hname.toIsName

theorem migrateDirectory_report (c : Config) (reporter : Reporter) (s : Session)
    (hw : s.disk.WellFormed) :
    let r := migrateDirectory c (some reporter) s
    ∃ notices, s.Tells notices r.1 ∧ match r.2 with
      | .ok result => notices = s.disk.fileNotices c ∧
        result.files.map (fun f => .fileTransformed f.fileName) = notices ∧
        reporter.Accepts s.notices notices
      | .error e => notices <+: s.disk.fileNotices c ∧ RaisedAfter reporter s.notices notices e := by
  have hmade := (Disk.ensureDirectory_grows hw c.outputDir).1
  rcases migrateDirectory_cases c (some reporter) s with
    ⟨fault, -, he⟩ | ⟨fault, -, -, he⟩ | ⟨entries, -, hlist, he⟩
  · rw [he]
    exact ⟨[], .nothing rfl rfl, List.nil_prefix, .file _ _ _ _ trivial⟩
  · rw [he]
    exact ⟨[], .nothing rfl rfl, List.nil_prefix, .file _ _ _ _ trivial⟩
  · rw [he]
    obtain ⟨notices, htells, hreport⟩ := migrateEntries_report reporter (atListing c s entries)
      entries fun f hf => base_join_of_listed hmade hlist hf
    have hlevel : (Event.batchStarted c entries.length).level ≠ .error := by simp [Event.level]
    have hmake : s.Tells [] { s with disk := (s.disk.ensureDirectory c.outputDir).1 } :=
      .nothing rfl rfl
    have hlog : s.Tells [] (atListing c s entries) := hmake.after (.log hlevel)
    have hnotices : s.disk.fileNotices c =
        ((eligibleFiles c.extension entries).map Prod.fst).map .fileTransformed := by
      rw [Disk.fileNotices, eligible_of_listed hlist, List.map_map]
      rfl
    refine ⟨notices, hlog.after htells, ?_⟩
    dsimp only
    cases hr : (migrateEntries c (some reporter) entries (atListing c s entries)).2 with
    | error e =>
      rw [hr] at hreport
      rw [hnotices]
      exact hreport.of_error
    | ok results =>
      rw [hr] at hreport
      obtain ⟨htold, hnames, haccepted⟩ := hreport.of_ok
      refine ⟨htold.trans hnotices.symm, ?_, haccepted⟩
      rw [htold, ← hnames, List.map_map]
      rfl

section Run

variable {source : Config.Source} {reporter : Reporter} {s : Session}

/-- The settings are accepted, the batch succeeds, and the reporter raises nothing at its
completion. -/
structure Succeeds (source : Config.Source) (reporter : Reporter) (s : Session) (c : Config)
    (result : BatchResult) : Prop where
  accepted : resolveConfig s.disk.workingPath source = .ok c
  migrated : (migrateDirectory c (some reporter) s).2 = .ok result
  completed :
    reporter.objection (migrateDirectory c (some reporter) s).1.notices .completed = none

/-- What a run raises, and what it has told the reporter by then: nothing when the settings are
refused, the first files up to the failure of the batch, or all files when the reporter raises
something at the completion. -/
inductive Raises (source : Config.Source) (reporter : Reporter) (s : Session) :
    List Notice → Raised → Prop
  | settings (issues : List Config.Issue)
    (refused : resolveConfig s.disk.workingPath source = .error issues) :
    Raises source reporter s [] (Config.invalid issues)
  | batch (c : Config) (notices : List Notice) (e : Raised)
    (accepted : resolveConfig s.disk.workingPath source = .ok c)
    (raised : (migrateDirectory c (some reporter) s).2 = .error e)
    (first : notices <+: s.disk.fileNotices c) (after : RaisedAfter reporter s.notices notices e) :
    Raises source reporter s notices e
  | completion (c : Config) (result : BatchResult) (e : Raised)
    (accepted : resolveConfig s.disk.workingPath source = .ok c)
    (migrated : (migrateDirectory c (some reporter) s).2 = .ok result)
    (told : reporter.Accepts s.notices (s.disk.fileNotices c))
    (objection : reporter.objection (s.notices ++ s.disk.fileNotices c) .completed = some e) :
    Raises source reporter s (s.disk.fileNotices c ++ [.completed]) e

theorem attempt_eq_ok_iff {result : BatchResult} :
    (attempt source reporter s).2 = .ok result ↔ ∃ c, Succeeds source reporter s c result := by
  constructor
  · intro h
    unfold attempt at h
    cases hc : resolveConfig s.disk.workingPath source with
    | error issues => simp [hc] at h
    | ok c =>
      rcases hm : migrateDirectory c (some reporter) s with ⟨s', e | found⟩
      · simp [hc, hm] at h
      · cases hobjection : reporter.objection s'.notices .completed with
        | some e => simp [hc, hm, Session.report_of_some hobjection] at h
        | none =>
          obtain rfl : found = result := by simpa [hc, hm, Session.report_of_none hobjection] using h
          exact ⟨c, hc, by rw [hm], by rw [hm, hobjection]⟩
  · rintro ⟨c, hc, hresult, hobjection⟩
    rcases hm : migrateDirectory c (some reporter) s with ⟨s', r⟩
    rw [hm] at hresult hobjection
    obtain rfl : r = .ok result := hresult
    simp only [attempt, hc, hm, Session.report_of_none hobjection]

theorem attempt_report (source : Config.Source) (reporter : Reporter) (hw : s.disk.WellFormed) :
    let r := attempt source reporter s
    ∃ notices, s.Tells notices r.1 ∧ match r.2 with
      | .ok result => ∀ c, resolveConfig s.disk.workingPath source = .ok c →
        notices = s.disk.fileNotices c ++ [.completed] ∧
        result.files.map (fun f => .fileTransformed f.fileName) = s.disk.fileNotices c ∧
        reporter.Accepts s.notices notices
      | .error e => Raises source reporter s notices e := by
  cases hc : resolveConfig s.disk.workingPath source with
  | error issues =>
    rw [attempt, hc]
    exact ⟨[], .nothing rfl rfl, .settings issues hc⟩
  | ok c =>
    obtain ⟨notices, htells, hreport⟩ := migrateDirectory_report c reporter s hw
    rcases hm : migrateDirectory c (some reporter) s with ⟨s', e | result⟩
    · rw [hm] at htells hreport
      simp only [attempt, hc, hm]
      exact ⟨notices, htells, .batch c notices e hc (by rw [hm]) hreport.1 hreport.2⟩
    · rw [hm] at htells hreport
      obtain ⟨rfl, hnames, haccepted⟩ := hreport
      have htold := htells.trans (s'.tells_tell .completed)
      have hearlier := htells.notices
      dsimp only at hearlier
      cases hobjection : reporter.objection s'.notices .completed with
      | none =>
        simp only [attempt, hc, hm, Session.report_of_none hobjection]
        rw [hearlier] at hobjection
        refine ⟨_, htold, fun c' hc' => ?_⟩
        obtain rfl : c = c' := Except.ok.inj hc'
        exact ⟨rfl, hnames, haccepted.concat hobjection⟩
      | some e =>
        simp only [attempt, hc, hm, Session.report_of_some hobjection]
        rw [hearlier] at hobjection
        exact ⟨_, htold, .completion c result e hc (by rw [hm]) haccepted hobjection⟩

end Run

/-- Every run ends with the code 0 or 1. The code is 0 exactly when the settings are accepted, the
batch succeeds and the reporter raises nothing at its completion. Then the reporter was told of each
file and of the completion, the number of files is the last thing logged, and no error was logged.
Otherwise what was raised is the last thing logged and the only error. -/
theorem run_outcome (source : Config.Source) (reporter : Reporter) (s : Session)
    (hw : s.disk.WellFormed) :
    let r := run source reporter s
    (r.2 = 0 ∨ r.2 = 1) ∧ (r.2 = 0 ↔ ∃ c result, Succeeds source reporter s c result) ∧
    (∀ c result, Succeeds source reporter s c result → ∃ logged,
      r.1.notices = s.notices ++
        (result.files.map (fun f => .fileTransformed f.fileName) ++ [.completed]) ∧
      result.files.map (fun f => .fileTransformed f.fileName) = s.disk.fileNotices c ∧
      reporter.Accepts s.notices (s.disk.fileNotices c ++ [.completed]) ∧
      r.1.events = s.events ++ logged ∧
      logged.getLast? = some (.batchFinished result.files.length) ∧
      ∀ e ∈ logged, e.level ≠ .error) ∧
    (r.2 = 1 → ∃ notices logged e, Raises source reporter s notices e ∧
      r.1.notices = s.notices ++ notices ∧ r.1.events = s.events ++ logged ∧
      logged.getLast? = some (.migrationFailed e) ∧
      logged.filter (fun x => x.level = .error) = [.migrationFailed e]) := by
  obtain ⟨notices, htells, hreport⟩ := attempt_report source reporter hw
  have hiff (result : BatchResult) : (attempt source reporter s).2 = .ok result ↔ _ :=
    attempt_eq_ok_iff
  obtain ⟨logged, hlogged, herror⟩ := htells.events
  rcases ha : attempt source reporter s with ⟨s', e | result⟩
  · rw [ha] at hiff htells hlogged hreport
    have hnot : ∀ c result, ¬ Succeeds source reporter s c result := fun c result h => by
      simpa using (hiff result).mpr ⟨c, h⟩
    have hfilter : logged.filter (fun x => x.level = .error) = [] := by simpa using herror
    have hrun : run source reporter s = (s'.log (.migrationFailed e), 1) := by rw [run, ha]
    rw [hrun]
    refine ⟨.inr rfl, by simpa using hnot, fun c result h => absurd h (hnot c result), fun _ => ?_⟩
    refine ⟨notices, logged ++ [.migrationFailed e], e, hreport, htells.notices, ?_, by simp, ?_⟩
    · rw [Session.log, hlogged, List.append_assoc]
    · rw [List.filter_append, hfilter]
      rfl
  · rw [ha] at hiff htells hlogged hreport
    obtain ⟨c, hdone⟩ := (hiff result).mp rfl
    obtain ⟨hnotices, hnames, haccepted⟩ := hreport c hdone.accepted
    have hrun : run source reporter s = (s'.log (.batchFinished result.files.length), 0) := by
      rw [run, ha]
    rw [hrun]
    refine ⟨.inl rfl, by simpa using ⟨c, result, hdone⟩, fun c' result' h => ?_, by simp⟩
    obtain rfl : c = c' := Except.ok.inj (hdone.accepted.symm.trans h.accepted)
    obtain rfl : result = result' := Except.ok.inj (hdone.migrated.symm.trans h.migrated)
    refine ⟨logged ++ [.batchFinished result.files.length], ?_, hnames, hnotices ▸ haccepted, ?_,
      by simp, ?_⟩
    · rw [hnames, ← hnotices]
      exact htells.notices
    · rw [Session.log, hlogged, List.append_assoc]
    · intro e he
      rcases List.mem_append.mp he with he | he
      · exact herror e he
      · rw [List.mem_singleton.mp he]
        simp [Event.level]

/-- Settings that give a directory and a place for a new one. -/
def graphSettings : Config.Source :=
  .value (.object [("inputDir".toList, .string "in".toList), ("outputDir".toList, .string "new".toList)])

/-- Raises an error when it is told of the completion. -/
def objectsToCompletion : Reporter :=
  ⟨fun _ n => if n = .completed then some (.plain "closed".toList none) else none⟩

/-- Both graphs were told before the completion, and the error of the reporter is logged. -/
theorem run_outcome_of_objection :
    let s := Session.start graphs
    s.disk.WellFormed ∧ (run graphSettings objectsToCompletion s).2 = 1 ∧
    (run graphSettings objectsToCompletion s).1.notices =
      [.fileTransformed "a.ron".toList, .fileTransformed "b.ron".toList, .completed] ∧
    ∃ notices logged e, Raises graphSettings objectsToCompletion s notices e ∧
      (run graphSettings objectsToCompletion s).1.notices = s.notices ++ notices ∧
      (run graphSettings objectsToCompletion s).1.events = s.events ++ logged ∧
      logged.getLast? = some (.migrationFailed e) ∧
      logged.filter (fun x => x.level = .error) = [.migrationFailed e] := by
  have hw : graphs.WellFormed := by decide +kernel
  have hcode : (run graphSettings objectsToCompletion (.start graphs)).2 = 1 := by decide +kernel
  obtain ⟨-, -, -, hfailed⟩ := run_outcome graphSettings objectsToCompletion (.start graphs) hw
  exact ⟨hw, hcode, by decide +kernel, hfailed hcode⟩

end NodeReshape
