import NodeReshape.Proofs.InputPreservation

/-!
# A missing input directory

The output directory is made before the input directory is listed. A batch whose input directory is
missing ends before its first file, unless a directory that was just made leads the input path to
one.
-/
namespace NodeReshape

variable {c : Config} {s : Session}

/-- The input path leads to a directory once the output directory is made, past a directory that was
not there before. -/
def FoundThroughOutput (c : Config) (d : Disk) : Prop :=
  (d.ensureDirectory c.outputDir).2 = .ok () ∧
    ∃ l m, (d.ensureDirectory c.outputDir).1.Denotes c.inputDir l ∧ d.Meets c.inputDir m ∧
      d.get? m = none ∧ (d.ensureDirectory c.outputDir).1.get? m = some .directory

/-- A directory is found after others were made where it was before, or through one of these. -/
theorem Disk.GrowsTo.denotes {d d' : Disk} {made : Location → Prop} (hg : GrowsTo made d d')
    {p : Text} {l : Location} (h : d'.Denotes p l) : d.Denotes p l ∨
      ∃ m, d.Meets p m ∧ d.get? m = none ∧ d'.get? m = some .directory := by
  rcases hg.locate_eq_or .look p with he | ⟨m, hm, hnone, hdir, -⟩
  · exact .inl ⟨h.1, he ▸ h.2⟩
  · exact .inr ⟨m, hm, hnone, hdir⟩

/-- The batch fails for the output directory that cannot be made or for the input directory that
cannot be listed then, and nothing but directories is new. -/
structure StopsAtDirectories (c : Config) (s : Session) (r : Session × Except Raised BatchResult) :
    Prop where
  raised : ∃ fault, ((s.disk.ensureDirectory c.outputDir).2 = .error fault ∧
      r.2 = .error (.file .directoryCreate c.outputDir fault.raised)) ∨
    ((s.disk.ensureDirectory c.outputDir).1.list c.inputDir = .error fault ∧
      r.2 = .error (.file .directoryRead c.inputDir fault.raised))
  disk : Disk.GrowsTo (fun _ => True) s.disk r.1.disk
  notices : r.1.notices = s.notices

theorem migrateDirectory_of_missing (reporter : Option Reporter) (hw : s.disk.WellFormed)
    (h : ∀ l, ¬ s.disk.Denotes c.inputDir l) (hnew : ¬ FoundThroughOutput c s.disk) :
    StopsAtDirectories c s (migrateDirectory c reporter s) := by
  have hg := (Disk.ensureDirectory_grows hw c.outputDir).2
  rcases migrateDirectory_cases c reporter s with
    ⟨fault, hmade, he⟩ | ⟨fault, -, hlist, he⟩ | ⟨entries, hok, hlist, he⟩
  · rw [he]
    exact ⟨⟨fault, .inl ⟨hmade, rfl⟩⟩, hg, rfl⟩
  · rw [he]
    exact ⟨⟨fault, .inr ⟨hlist, rfl⟩⟩, hg, rfl⟩
  · obtain ⟨l, hl, -⟩ := Disk.list_eq_ok_iff.mp hlist
    obtain ⟨m, hm⟩ := (hg.denotes hl).resolve_left (h l)
    exact absurd ⟨hok, l, m, hl, hm⟩ hnew

theorem run_of_error (source : Config.Source) (reporter : Reporter) {e : Raised}
    (hc : resolveConfig s.disk.workingPath source = .ok c)
    (h : (migrateDirectory c (some reporter) s).2 = .error e) :
    run source reporter s =
      ((migrateDirectory c (some reporter) s).1.log (.migrationFailed e), 1) := by
  rcases hm : migrateDirectory c (some reporter) s with ⟨s', r⟩
  rw [hm] at h
  obtain rfl : r = .error e := h
  simp only [run, attempt, hc, hm]

/-- A batch without its input directory fails for one of its directories, whoever is told about it.
It writes no file and reports nothing, and a migration with these settings fails without a
completion notice. -/
theorem missing_input_refused (c : Config) (s : Session) (hw : s.disk.WellFormed)
    (h : ∀ l, ¬ s.disk.Denotes c.inputDir l) (hnew : ¬ FoundThroughOutput c s.disk) :
    (∀ reporter, StopsAtDirectories c s (migrateDirectory c reporter s)) ∧
    ∀ source reporter, resolveConfig s.disk.workingPath source = .ok c →
      (run source reporter s).2 = 1 ∧ (run source reporter s).1.notices = s.notices ∧
      Disk.GrowsTo (fun _ => True) s.disk (run source reporter s).1.disk := by
  refine ⟨fun reporter => migrateDirectory_of_missing reporter hw h hnew, ?_⟩
  intro source reporter hc
  have hstops := migrateDirectory_of_missing (some reporter) hw h hnew
  obtain ⟨fault, ⟨-, he⟩ | ⟨-, he⟩⟩ := hstops.raised
  · rw [run_of_error source reporter hc he]
    exact ⟨rfl, hstops.notices, hstops.disk⟩
  · rw [run_of_error source reporter hc he]
    exact ⟨rfl, hstops.notices, hstops.disk⟩

theorem missing_input_refused_by_graphs :
    let c : Config := ⟨"missing".toList, "out/deep".toList, ".ron".toList⟩
    let s := Session.start graphs
    s.disk.WellFormed ∧ (∀ l, ¬ s.disk.Denotes c.inputDir l) ∧ ¬ FoundThroughOutput c s.disk ∧
    (∀ reporter, StopsAtDirectories c s (migrateDirectory c reporter s)) ∧
    ∀ source reporter, resolveConfig s.disk.workingPath source = .ok c →
      (run source reporter s).2 = 1 ∧ (run source reporter s).1.notices = s.notices ∧
      Disk.GrowsTo (fun _ => True) s.disk (run source reporter s).1.disk := by
  intro c s
  have hw : graphs.WellFormed := by decide +kernel
  have hfree : graphs.locate .look c.inputDir = .free ["missing".toList] := by rfl
  have hfree' : (graphs.ensureDirectory c.outputDir).1.locate .look c.inputDir =
      .free ["missing".toList] := by rfl
  have h : ∀ l, ¬ graphs.Denotes c.inputDir l := by
    rintro l ⟨-, hl⟩
    simp [hfree] at hl
  have hnew : ¬ FoundThroughOutput c graphs := by
    rintro ⟨-, l, m, ⟨-, hl⟩, -⟩
    simp [hfree'] at hl
  exact ⟨hw, h, hnew, missing_input_refused c s hw h hnew⟩

/-- The directory of `graphs` as input, on a path through the output directory. -/
def throughOutput : Config := ⟨"out/../in".toList, "out".toList, ".ron".toList⟩

/-- The input path leads nowhere before the output directory is made, and the graphs are still
reshaped. -/
theorem missing_input_found :
    graphs.WellFormed ∧ (∀ l, ¬ graphs.Denotes throughOutput.inputDir l) ∧
      (migrateDirectory throughOutput (some .console) (.start graphs)).2 =
        .ok ⟨throughOutput.inputDir, throughOutput.outputDir,
          [⟨"a.ron".toList, "in/a.ron".toList, "out/a.ron".toList, 1⟩,
            ⟨"b.ron".toList, "in/b.ron".toList, "out/b.ron".toList, 0⟩]⟩ ∧
      (migrateDirectory throughOutput (some .console) (.start graphs)).1.notices =
        [.fileTransformed "a.ron".toList, .fileTransformed "b.ron".toList] ∧
      (migrateDirectory throughOutput (some .console) (.start graphs)).1.disk.get?
        ["out".toList, "b.ron".toList] = some (.file []) := by
  have hmissing : graphs.locate .look throughOutput.inputDir = .failed .noEntry := by rfl
  refine ⟨by decide +kernel, ?_, by rfl, by rfl, by rfl⟩
  rintro l ⟨-, hl⟩
  simp [hmissing] at hl

end NodeReshape
