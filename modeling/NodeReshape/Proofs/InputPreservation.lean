import NodeReshape.Proofs.BatchProgress
import NodeReshape.Proofs.SettingFaults
import NodeReshape.Run

/-!
# What a migration does to its input

The settings are refused when the two directories spell the same location. Links can still lead an
output path back to a file of the input directory. This is the only way in which a migration changes
its input, and a disk without links does not have it.
-/
namespace NodeReshape

@[simp] theorem Session.disk_report (s : Session) (reporter : Option Reporter) (n : Notice) :
    (s.report reporter n).1.disk = s.disk := by
  cases reporter with
  | none => rfl
  | some r =>
    simp only [Session.report]
    split <;> rfl

theorem migrateFile_disk (s : Session) (inputPath outputPath : Text) :
    (migrateFile s inputPath outputPath).1.disk = s.disk ∨
    ∃ content,
      s.disk.write outputPath content = .ok (migrateFile s inputPath outputPath).1.disk := by
  rcases migrateFile_outcomes s inputPath outputPath with
    ⟨fault, -, he⟩ | ⟨content, -, ⟨fault, -, he⟩ | ⟨d, hwrite, he⟩⟩
  · rw [he]
    exact .inl rfl
  · rw [he]
    exact .inl rfl
  · rw [he]
    exact .inr ⟨_, hwrite⟩

/-- What holds of a disk and goes on when an eligible file is written holds after a pass. -/
theorem migrateEntries_invariant (c : Config) (reporter : Option Reporter) {P : Disk → Prop}
    (entries : List (Text × Entry)) (step : ∀ f ∈ eligibleFiles c.extension entries, ∀ d d' content,
      P d → d.write (Path.join c.outputDir f.1) content = .ok d' → P d') (s : Session)
    (h : P s.disk) : P (migrateEntries c reporter entries s).1.disk := by
  induction entries using eligibleFiles_induction generalizing s with
  | nil => exact h
  | file f rest files he ih =>
    have hkind : isEligible (Entry.file f.2).kind f.1 c.extension = true := he
    rw [migrateEntries, if_pos hkind]
    have hfile : P
        (migrateFile s (Path.join c.inputDir f.1) (Path.join c.outputDir f.1)).1.disk := by
      rcases migrateFile_disk s (Path.join c.inputDir f.1) (Path.join c.outputDir f.1) with
        hsame | ⟨content, hwrite⟩
      · rwa [hsame]
      · exact step f List.mem_cons_self _ _ content h hwrite
    rcases hm : migrateFile s (Path.join c.inputDir f.1) (Path.join c.outputDir f.1) with
      ⟨s', _ | result⟩
    · rw [hm] at hfile
      exact hfile
    · rw [hm] at hfile
      have hreport := s'.disk_report reporter (.fileTransformed f.1)
      dsimp only
      rcases hr : s'.report reporter (.fileTransformed f.1) with ⟨s'', _ | _⟩
      · rw [hr] at hreport
        exact hreport ▸ hfile
      · rw [hr] at hreport
        exact ih (fun g hg => step g (List.mem_cons_of_mem _ hg)) s'' (hreport ▸ hfile)
  | skip e rest files he ih =>
    rw [migrateEntries, if_neg he]
    exact ih step (s.log (.entrySkipped e.1)) h

/-- The disk has come from an earlier one by writing files, and one file has its old content unless
it was hit. -/
structure KeepsUnless (hit : Prop) (earlier : Disk) (l : Location) (content : Bytes) (d : Disk) :
    Prop where
  wellFormed : d.WellFormed
  writesTo : Disk.WritesTo earlier d
  file : d.get? l = some (.file content) ∨ hit

theorem KeepsUnless.write {hit : Prop} {earlier d d' : Disk} {l : Location} {p : Text}
    {content bytes : Bytes} (h : KeepsUnless hit earlier l content d)
    (hl : earlier.get? l = some (.file content)) (hwrite : d.write p bytes = .ok d')
    (hhit : earlier.locate .write p = .found l (.file content) → hit) :
    KeepsUnless hit earlier l content d' := by
  obtain ⟨hw', hwrites⟩ := h.wellFormed.write hwrite
  refine ⟨hw', h.writesTo.trans hwrites, ?_⟩
  rcases h.file with hold | hdone
  · obtain ⟨k, rfl, hz, hp⟩ := Disk.write_cases hwrite
    by_cases hk : k = l
    · subst hk
      have hfits := Disk.locate_fits h.wellFormed .write hz
      rcases hp with ⟨old, hp⟩ | hp
      · rw [hp] at hfits
        cases hfits.symm.trans hold
        -- The walk passes directories and links that the earlier disk has as well, and ends at the
        -- file with its old content.
        exact .inr (hhit (by rw [Disk.locate_of_keeps h.writesTo.keeps (by rw [hp]; exact hl), hp]))
      · rw [hp] at hfits
        obtain ⟨_, _, -, -, -, hnone⟩ := hfits
        simp [hold] at hnone
    · exact .inl (by rw [Disk.get?_put_of_ne d _ hk, hold])
  · exact .inr hdone

/-- A pass leaves a file alone to which no output path leads. -/
theorem migrateEntries_keeps (c : Config) (reporter : Option Reporter)
    (entries : List (Text × Entry)) (s : Session) (hw : s.disk.WellFormed) {l : Location}
    {content : Bytes} (hl : s.disk.get? l = some (.file content)) :
    ∃ content', (migrateEntries c reporter entries s).1.disk.get? l = some (.file content') ∧
      (content' = content ∨ ∃ f ∈ eligibleFiles c.extension entries,
        s.disk.locate .write (Path.join c.outputDir f.1) = .found l (.file content)) := by
  have hrun := migrateEntries_invariant c reporter entries
    (fun f hf d d' bytes h hwrite => h.write hl hwrite fun hp => ⟨f, hf, hp⟩) s
    (⟨hw, .refl s.disk, .inl hl⟩ : KeepsUnless (∃ f ∈ eligibleFiles c.extension entries,
      s.disk.locate .write (Path.join c.outputDir f.1) = .found l (.file content)) _ l content _)
  obtain ⟨content', hl'⟩ := hrun.writesTo.exists_file hl
  refine ⟨content', hl', hrun.file.imp_left fun hkept => ?_⟩
  cases hl'.symm.trans hkept
  rfl

section Inputs

variable {c : Config} {s : Session} {l : Location} {name : Text} {content : Bytes}

/-- The output path of an eligible file of the directory leads to this file of the directory, once
the output directory is made. -/
def LeadsBack (c : Config) (d : Disk) (l : Location) (name : Text) (content : Bytes) : Prop :=
  ∃ m bytes, d.get? (l ++ [m]) = some (.file bytes) ∧ c.extension <:+ m ∧
    (d.ensureDirectory c.outputDir).1.locate .write (Path.join c.outputDir m) =
      .found (l ++ [name]) (.file content)

theorem migrateDirectory_keeps (reporter : Option Reporter) (hw : s.disk.WellFormed)
    (hin : s.disk.Denotes c.inputDir l) (hf : s.disk.get? (l ++ [name]) = some (.file content)) :
    ∃ content', (migrateDirectory c reporter s).1.disk.get? (l ++ [name]) = some (.file content') ∧
      (content' = content ∨ (s.disk.ensureDirectory c.outputDir).2 = .ok () ∧
        LeadsBack c s.disk l name content) := by
  obtain ⟨hmade, hg⟩ := Disk.ensureDirectory_grows hw c.outputDir
  have hf' := hg.get?_eq_some hf
  rcases migrateDirectory_cases c reporter s with
    ⟨fault, -, he⟩ | ⟨fault, -, -, he⟩ | ⟨entries, hok, hlist, he⟩
  · rw [he]
    exact ⟨content, hf', .inl rfl⟩
  · rw [he]
    exact ⟨content, hf', .inl rfl⟩
  · obtain ⟨l', hin', rfl⟩ := Disk.list_eq_ok_iff.mp hlist
    obtain rfl := (hin.of_keeps hg.keeps).unique hin'
    rw [he]
    obtain ⟨content', hl, hback⟩ :=
      migrateEntries_keeps c reporter _ (atListing c s _) hmade hf'
    refine ⟨content', hl, hback.imp_right ?_⟩
    rintro ⟨f, hm, hp⟩
    obtain ⟨hm, hext⟩ := mem_eligibleFiles_iff.mp hm
    exact ⟨hok, f.1, f.2, hg.get?_eq_file_iff.mp (Disk.mem_children_iff.mp hm), hext, hp⟩

/-- Without links, an output path leads to an input only when both directories are one. -/
theorem LeadsBack.spelled_eq (h : LeadsBack c s.disk l name content) (hw : s.disk.WellFormed)
    (hl : s.disk.LinkFree) (hin : s.disk.Denotes c.inputDir l) :
    s.disk.spelled c.inputDir = s.disk.spelled c.outputDir := by
  obtain ⟨m, bytes, hm, -, hp⟩ := h
  have hg := (Disk.ensureDirectory_grows hw c.outputDir).2
  have hplace := ((hg.linkFree hl).locate_location (l := l ++ [name]) (by rw [hp]; rfl)).2
  have hjoin : s.disk.spelled (Path.join c.outputDir m) = s.disk.spelled c.outputDir ++ [m] :=
    Path.location_join c.outputDir (hw.named _ _ _ hm).toIsName _
  rw [hg.spelled, hjoin] at hplace
  rw [← (hl.eq_spelled hin).2, (List.append_inj' hplace rfl).1]

/-- Once the output directory is made a batch writes files only, wherever it ends. -/
theorem migrateDirectory_writesTo (c : Config) (reporter : Option Reporter)
    (hw : s.disk.WellFormed) :
    (migrateDirectory c reporter s).1.disk.WellFormed ∧
      (s.disk.ensureDirectory c.outputDir).1.WritesTo (migrateDirectory c reporter s).1.disk := by
  have hmade := (Disk.ensureDirectory_grows hw c.outputDir).1
  rcases migrateDirectory_cases c reporter s with
    ⟨fault, -, he⟩ | ⟨fault, -, -, he⟩ | ⟨entries, -, -, he⟩
  · rw [he]
    exact ⟨hmade, .refl _⟩
  · rw [he]
    exact ⟨hmade, .refl _⟩
  · rw [he]
    let P : Disk → Prop := fun d =>
      d.WellFormed ∧ (s.disk.ensureDirectory c.outputDir).1.WritesTo d
    have hstart : P (atListing c s entries).disk := ⟨hmade, .refl _⟩
    refine migrateEntries_invariant c reporter entries (P := P) ?_ (atListing c s entries) hstart
    rintro f - d d' content ⟨hd, hwrites⟩ hwrite
    obtain ⟨hd', hwrites'⟩ := hd.write hwrite
    exact ⟨hd', hwrites.trans hwrites'⟩

/-- Directories that spell the same location are the same by their names. -/
theorem sameDirectory_of_spelled_eq {d : Disk} (hw : d.WellFormed)
    (h : d.spelled c.inputDir = d.spelled c.outputDir) :
    Config.sameDirectory d.workingPath c = true := by
  have hnames : ∀ s ∈ d.workingDirectory, Path.IsName s := fun s hs =>
    (hw.isEntryName hw.home s hs).toIsName
  rw [Config.sameDirectory, Disk.workingPath, Path.resolve_eq hnames, Path.resolve_eq hnames]
  unfold Disk.spelled at h
  simp [h]

theorem run_disk (source : Config.Source) (reporter : Reporter)
    (h : resolveConfig s.disk.workingPath source = .ok c) :
    (run source reporter s).1.disk = (migrateDirectory c (some reporter) s).1.disk := by
  rw [run, attempt, h]
  dsimp only
  rcases migrateDirectory c (some reporter) s with ⟨s', _ | result⟩
  · rfl
  · have hreport := s'.disk_report (some reporter) .completed
    dsimp only
    rcases hr : s'.report (some reporter) .completed with ⟨s'', _ | _⟩
    · rw [hr] at hreport
      exact hreport
    · rw [hr] at hreport
      exact hreport

/-- Whatever the settings, the files of the input directory stay files. One of them changes only
when there are links and, once the output directory is made, the output path of an eligible file
leads to it. -/
theorem run_keeps_input (source : Config.Source) (reporter : Reporter) (s : Session) (c : Config)
    (l : Location) (name : Text) (content : Bytes) (hw : s.disk.WellFormed)
    (hc : resolveConfig s.disk.workingPath source = .ok c) (hin : s.disk.Denotes c.inputDir l)
    (hf : s.disk.get? (l ++ [name]) = some (.file content)) :
    ∃ content', (run source reporter s).1.disk.get? (l ++ [name]) = some (.file content') ∧
      (content' = content ∨ ¬ s.disk.LinkFree ∧ LeadsBack c s.disk l name content) := by
  rw [run_disk source reporter hc]
  obtain ⟨content', hl, hback⟩ := migrateDirectory_keeps (some reporter) hw hin hf
  refine ⟨content', hl, hback.imp_right fun ⟨_, hback⟩ => ⟨fun hfree => ?_, hback⟩⟩
  have hsame := sameDirectory_of_spelled_eq hw (hback.spelled_eq hw hfree hin)
  rw [Config.sameDirectory_of_resolveConfig hc] at hsame
  simp at hsame

end Inputs

/-- A directory with one old graph, and a link to it where the output goes. -/
def linkedGraphs : Disk :=
  (((Disk.mk .empty []).put ["animation_graphs_old".toList] .directory).put
    ["animation_graphs_old".toList, "a.ron".toList]
    (.file (Utf8.encode "(name: \"x\", ty: \"Clip\", inner: (1))".toList))).put
    ["animation_graphs".toList] (.link "animation_graphs_old".toList)

theorem run_keeps_linked_file :
    let s := Session.start linkedGraphs
    let graph := Utf8.encode "(name: \"x\", ty: \"Clip\", inner: (1))".toList
    ∃ c l name, s.disk.WellFormed ∧ resolveConfig s.disk.workingPath .absent = .ok c ∧
      s.disk.Denotes c.inputDir l ∧ s.disk.get? (l ++ [name]) = some (.file graph) ∧
      ∃ content', (run .absent .console s).1.disk.get? (l ++ [name]) = some (.file content') ∧
        (content' = graph ∨ ¬ s.disk.LinkFree ∧ LeadsBack c s.disk l name graph) := by
  let c : Config := ⟨"animation_graphs_old".toList, "animation_graphs".toList, ".ron".toList⟩
  have hw : linkedGraphs.WellFormed := by decide +kernel
  have hc : resolveConfig linkedGraphs.workingPath .absent = .ok c := by rfl
  have hin : linkedGraphs.Denotes c.inputDir ["animation_graphs_old".toList] := ⟨rfl, by rfl⟩
  exact ⟨c, _, "a.ron".toList, hw, hc, hin, by rfl,
    run_keeps_input .absent .console (.start linkedGraphs) c _ _ _ hw hc hin (by rfl)⟩

/-- The graph in the input directory is reshaped in its place. -/
theorem run_changes_linked_file :
    let s := Session.start linkedGraphs
    let graph := "(name: \"x\", ty: \"Clip\", inner: (1))".toList
    let l := ["animation_graphs_old".toList]
    (∃ c, resolveConfig s.disk.workingPath .absent = .ok c ∧ s.disk.Denotes c.inputDir l) ∧
      s.disk.WellFormed ∧
      s.disk.get? (l ++ ["a.ron".toList]) = some (.file (Utf8.encode graph)) ∧
      (run .absent .console s).1.disk.get? (l ++ ["a.ron".toList]) =
        some (.file (Utf8.encode (transform graph))) ∧
      Utf8.encode (transform graph) ≠ Utf8.encode graph := by
  refine ⟨⟨_, rfl, rfl, ?_⟩, by decide +kernel, ?_, ?_, by decide +kernel⟩
  · rfl
  · rfl
  · rfl

end NodeReshape
