import NodeReshape.Proofs.EnsuredDirectory
import NodeReshape.Proofs.InputPreservation

/-!
# The files that a batch takes

A batch makes and lists its directories by their paths as they are written, and opens its files by
joined paths. What it opens is the entry of the listed name in each of the two directories, unless
the path of the directory steps up behind a link to a directory elsewhere.
-/
namespace NodeReshape
namespace Disk

variable {d : Disk}

theorem lookUp_file {l : Location} {name : Text} {content : Bytes} (hn : IsEntryName name)
    (hf : d.get? (l ++ [name]) = some (.file content)) :
    d.lookUp .look l name = .found (l ++ [name]) (.file content) := by
  have hshort := hn.short
  refine walk_of_stretch ?_ linkLimit
  rw [stretch_name _ _ _ hn.toIsProper, if_neg (by simp), if_neg (by omega), hf]
  exact if_pos (.inl rfl)

end Disk

/-- Every disk of a row comes from the one before it by a move for the next name. -/
inductive InTurn (moves : Disk → Text → Bytes → Disk → Prop) : Disk → List Text → Disk → Prop
  | done {d} : InTurn moves d [] d
  | next {d d' d'' name content names} : moves d name content d' → InTurn moves d' names d'' →
    InTurn moves d (name :: names) d''

/-- A file is read and its reshaped content is written, by the joined paths. Where neither path
steps up behind a link to a directory elsewhere, the file is the entry of its name in the directory
`l`, and what is written is looked up by this name in the directory `o`. -/
structure FileTaken (c : Config) (made : Disk) (l o : Location) (before : Disk) (name : Text)
    (content : Bytes) (after : Disk) : Prop where
  read : before.read (Path.join c.inputDir name) = .ok content
  listed : ¬ made.StepsOutOfLink c.inputDir →
    before.locate .look (Path.join c.inputDir name) = .found (l ++ [name]) (.file content)
  written : before.write (Path.join c.outputDir name) (reshapedFile (name, content)).2 = .ok after
  entry : ¬ made.StepsOutOfLink c.outputDir →
    before.locate .write (Path.join c.outputDir name) = before.lookUp .write o name

section Batch

variable {c : Config} {reporter : Option Reporter} {s : Session}

theorem migrateEntries_inTurn {P : Disk → Prop} {moves : Disk → Text → Bytes → Disk → Prop}
    (entries : List (Text × Entry))
    (step : ∀ f ∈ eligibleFiles c.extension entries, ∀ d d' content, P d →
      d.read (Path.join c.inputDir f.1) = .ok content →
      d.write (Path.join c.outputDir f.1) (reshapedFile (f.1, content)).2 = .ok d' →
      moves d f.1 content d' ∧ P d') (s : Session) (hs : P s.disk) {results : List FileResult}
    (h : (migrateEntries c reporter entries s).2 = .ok results) :
    InTurn moves s.disk ((eligibleFiles c.extension entries).map Prod.fst)
      (migrateEntries c reporter entries s).1.disk := by
  induction entries using eligibleFiles_induction generalizing s results with
  | nil => exact .done
  | file f rest files he ih =>
    have hkind : isEligible (Entry.file f.2).kind f.1 c.extension = true := he
    rw [migrateEntries, if_pos hkind] at h ⊢
    rcases hm : migrateFile s (Path.join c.inputDir f.1) (Path.join c.outputDir f.1) with
      ⟨s', e | file⟩
    · simp [hm] at h
    obtain ⟨content, hfile⟩ := exists_migratesFile hm
    obtain ⟨hmoves, hs'⟩ := step f List.mem_cons_self _ _ content hs hfile.read hfile.written
    have hreport := s'.disk_report reporter (.fileTransformed f.1)
    rcases hr : s'.report reporter (.fileTransformed f.1) with ⟨s'', e | _⟩
    · simp [hm, hr] at h
    rw [hr] at hreport
    simp only [hm, hr] at h ⊢
    cases hrest : (migrateEntries c reporter rest s'').2 with
    | error e => simp [hrest, Except.map] at h
    | ok others =>
      have hstep : ∀ g ∈ files, ∀ d d' content, P d →
          d.read (Path.join c.inputDir g.1) = .ok content →
          d.write (Path.join c.outputDir g.1) (reshapedFile (g.1, content)).2 = .ok d' →
          moves d g.1 content d' ∧ P d' := fun g hg => step g (List.mem_cons_of_mem _ hg)
      have hnext := ih hstep s'' (hreport ▸ hs') hrest
      rw [hreport] at hnext
      exact .next hmoves hnext
  | skip e rest files he ih =>
    rw [migrateEntries, if_neg he] at h ⊢
    exact ih step (s.log (.entrySkipped e.1)) hs h

/-- A file whose name was listed is opened as the entry of this name, and so is its output. -/
theorem fileTaken {made before after : Disk} {l o : Location} {name : Text} {listed content : Bytes}
    (hmade : made.WellFormed) (hin : made.Denotes c.inputDir l) (hout : made.Denotes c.outputDir o)
    (hl : made.get? (l ++ [name]) = some (.file listed)) (hw : before.WellFormed)
    (hwrites : made.WritesTo before) (hread : before.read (Path.join c.inputDir name) = .ok content)
    (hwrite : before.write (Path.join c.outputDir name) (reshapedFile (name, content)).2 =
      .ok after) : FileTaken c made l o before name content after := by
  have hn := hmade.named _ _ _ hl
  constructor
  case read => exact hread
  case written => exact hwrite
  case listed =>
    intro hsteps
    obtain ⟨m, hm⟩ := Disk.read_eq_ok hread
    obtain ⟨bytes, hbytes⟩ := hwrites.exists_file hl
    have hshort := (hin.leadsShort hsteps).of_keeps hwrites.kept
    have hplace := hshort.locate_join hw hn.toIsName .look (by simp [hm])
    rw [Disk.lookUp_file hn hbytes, hm] at hplace
    cases hplace
    exact hm
  case entry =>
    intro hsteps
    obtain ⟨m, -, -, hm⟩ := Disk.write_cases hwrite
    have hshort := (hout.leadsShort hsteps).of_keeps hwrites.kept
    apply hshort.locate_join hw hn.toIsName .write
    rcases hm with ⟨old, hm⟩ | hm <;> simp [hm]

/-- A batch that ends well has taken the eligible entries of the listing in their order, reading
each from the input directory and writing it into the output directory, as far as no path of a
directory steps up behind a link to a directory elsewhere. -/
theorem migrateDirectory_takes_listed (c : Config) (reporter : Option Reporter) (s : Session)
    (result : BatchResult) (hw : s.disk.WellFormed)
    (h : (migrateDirectory c reporter s).2 = .ok result) :
    ∃ l o, let made := (s.disk.ensureDirectory c.outputDir).1
      made.Denotes c.inputDir l ∧ made.Denotes c.outputDir o ∧
      InTurn (FileTaken c made l o) made
        ((eligibleFiles c.extension (made.children l)).map Prod.fst)
        (migrateDirectory c reporter s).1.disk := by
  rcases migrateDirectory_cases c reporter s with
    ⟨fault, -, he⟩ | ⟨fault, -, -, he⟩ | ⟨entries, hmade, hlist, he⟩
  · simp [he] at h
  · simp [he] at h
  · obtain ⟨o, hout⟩ := Disk.denotes_of_ensure hw hmade
    obtain ⟨l, hin, rfl⟩ := Disk.list_eq_ok_iff.mp hlist
    have hmade' := (Disk.ensureDirectory_grows hw c.outputDir).1
    rw [he] at h ⊢
    generalize hd : (s.disk.ensureDirectory c.outputDir).1 = made at *
    have hstart : (atListing c s (made.children l)).disk = made := hd
    cases hr : (migrateEntries c reporter _ (atListing c s _)).2 with
    | error e => simp [hr, Except.map] at h
    | ok results =>
      refine ⟨l, o, hin, hout, ?_⟩
      have hstep : ∀ f ∈ eligibleFiles c.extension (made.children l), ∀ d d' content,
          (d.WellFormed ∧ made.WritesTo d) → d.read (Path.join c.inputDir f.1) = .ok content →
          d.write (Path.join c.outputDir f.1) (reshapedFile (f.1, content)).2 = .ok d' →
          FileTaken c made l o d f.1 content d' ∧ (d'.WellFormed ∧ made.WritesTo d') := by
        rintro f hf d d' content ⟨hwell, hwrites⟩ hread hwrite
        have hlisted := Disk.mem_children_iff.mp (mem_eligibleFiles_iff.mp hf).1
        obtain ⟨hwell', hnext⟩ := hwell.write hwrite
        exact ⟨fileTaken hmade' hin hout hlisted hwell hwrites hread hwrite, hwell',
          hwrites.trans hnext⟩
      have hrun := migrateEntries_inTurn (made.children l) hstep (atListing c s _)
        (by rw [hstart]; exact ⟨hmade', .refl made⟩) hr
      rwa [hstart] at hrun

end Batch

/-- A directory with one old graph and a directory in it, links to both, and another graph. -/
def linkedDirectories : Disk :=
  ((((((Disk.mk .empty []).put ["real".toList] .directory).put ["real".toList, "a.ron".toList]
    (.file (Utf8.encode "(name: \"x\", ty: \"Clip\", inner: (1))".toList))).put
    ["real".toList, "sub".toList] .directory).put ["short".toList] (.link "real".toList)).put
    ["deep".toList] (.link "real/sub".toList)).put ["a.ron".toList]
    (.file (Utf8.encode "plain".toList))

/-- The directory with the old graph as input, past a link and a step up. -/
def pastLink : Config := ⟨"short/sub/..".toList, "deep/out".toList, ".ron".toList⟩

theorem pastLink_input_stays :
    ¬ (linkedDirectories.ensureDirectory pastLink.outputDir).1.StepsOutOfLink
      pastLink.inputDir := by
  rintro ⟨front, behind, hsegs, kept, last, target, holder, inside, hc, ⟨k, hkept⟩, ht, -⟩
  have hw : linkedDirectories.WellFormed := by decide +kernel
  have hs : Path.segments pastLink.inputDir =
    ["short".toList, "sub".toList, Path.dotdot] := by decide
  have hc' : Path.collapse true ["short".toList, "sub".toList] =
    ["short".toList] ++ ["sub".toList] := by decide
  have hsub : (linkedDirectories.ensureDirectory pastLink.outputDir).1.get?
    (["real".toList] ++ ["sub".toList]) = some .directory := by rfl
  rw [hs] at hsegs
  obtain rfl : front = ["short".toList, "sub".toList] := by
    rcases front with - | ⟨a, - | ⟨b, - | ⟨c, front⟩⟩⟩
    · exact absurd (List.cons.inj hsegs).1 (by decide)
    · exact absurd (List.cons.inj (List.cons.inj hsegs).2).1 (by decide)
    · simp_all
    · simp at hsegs
  obtain ⟨rfl, hlast⟩ := List.append_inj' (hc.symm.trans hc') rfl
  obtain rfl := List.singleton_inj.mp hlast
  obtain rfl : holder = ["real".toList] :=
    hkept.eq_of_walk (Disk.ensureDirectory_grows hw _).1 (n := 1) (by rfl)
  rw [hsub] at ht
  simp at ht

theorem migrateDirectory_takes_linked :
    let s := Session.start linkedDirectories
    let made := (s.disk.ensureDirectory pastLink.outputDir).1
    let r := migrateDirectory pastLink none s
    ∃ result, s.disk.WellFormed ∧ r.2 = .ok result ∧
      (¬ made.StepsOutOfLink pastLink.inputDir ∧ ¬ made.StepsOutOfLink pastLink.outputDir) ∧
      ∃ l o, made.Denotes pastLink.inputDir l ∧ made.Denotes pastLink.outputDir o ∧
        InTurn (FileTaken pastLink made l o) made
          ((eligibleFiles pastLink.extension (made.children l)).map Prod.fst) r.1.disk := by
  have hw : linkedDirectories.WellFormed := by decide +kernel
  let result : BatchResult := ⟨pastLink.inputDir, pastLink.outputDir,
    [⟨"a.ron".toList, "short/a.ron".toList, "deep/out/a.ron".toList, 1⟩]⟩
  have hok : (migrateDirectory pastLink none (.start linkedDirectories)).2 = .ok result := by rfl
  have hout : ¬ (linkedDirectories.ensureDirectory pastLink.outputDir).1.StepsOutOfLink
    pastLink.outputDir := Disk.not_stepsOutOfLink (by decide)
  exact ⟨result, hw, hok, ⟨pastLink_input_stays, hout⟩,
    migrateDirectory_takes_listed pastLink none (.start linkedDirectories) result hw hok⟩

/-- The directory behind the link is listed, and the graph of its name in front of the link is
copied in place of the listed one. -/
theorem migrateDirectory_takes_unlisted :
    let s := Session.start linkedDirectories
    let c : Config := ⟨"deep/..".toList, "out".toList, ".ron".toList⟩
    let made := (s.disk.ensureDirectory c.outputDir).1
    let graph := "(name: \"x\", ty: \"Clip\", inner: (1))".toList
    s.disk.WellFormed ∧ made.Denotes c.inputDir ["real".toList] ∧
      made.get? ["real".toList, "a.ron".toList] = some (.file (Utf8.encode graph)) ∧
      made.locate .look (Path.join c.inputDir "a.ron".toList) =
        .found ["a.ron".toList] (.file (Utf8.encode "plain".toList)) ∧
      (migrateDirectory c none s).2 = .ok ⟨c.inputDir, c.outputDir,
        [⟨"a.ron".toList, "a.ron".toList, "out/a.ron".toList, 0⟩]⟩ ∧
      (migrateDirectory c none s).1.disk.get? ["out".toList, "a.ron".toList] =
        some (.file (Utf8.encode "plain".toList)) := by
  refine ⟨by decide +kernel, ⟨rfl, ?_⟩, ?_, ?_, ?_, ?_⟩
  · rfl
  · rfl
  · rfl
  · rfl
  · rfl

end NodeReshape
