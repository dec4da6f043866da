import NodeReshape.Batch
import NodeReshape.Proofs.DiskChange

/-!
# Migrating one file

What was written by a path is read by the same path, past the same links. So a migrated file stands
reshaped where its output path leads, and no other entry has changed. A migration that fails has
changed nothing.
-/
namespace NodeReshape

/-- A file can be written there: the name is free, or a file has it. -/
def Place.IsForFile (l : Location) (place : Place) : Prop :=
  place = .free l ∨ ∃ old, place = .found l (.file old)

namespace Disk

variable {d d' : Disk}

/-- The way to a place to write is the way of a look to the file that was put there. -/
theorem stretch_put_file {l : Location} (content : Bytes)
    (hl : d.get? l = none ∨ ∃ old, d.get? l = some (.file old)) (here : Location)
    (names : List Text) : match d.stretch .write here names with
      | .arrived place => place.IsForFile l →
        (d.put l (.file content)).stretch .look here names = .arrived (.found l (.file content))
      | .atLink directory target rest =>
        (d.put l (.file content)).stretch .look here names = .atLink directory target rest := by
  have hkeep : ∀ {k e}, d.get? k = some e → (∀ old, e ≠ .file old) →
      (d.put l (.file content)).get? k = some e := by
    intro k e hk he
    rw [get?_put_of_ne d _ ?_, hk]
    rintro rfl
    rcases hl with hnone | ⟨old, hold⟩
    · simp [hnone] at hk
    · exact he old (Option.some.inj (hk.symm.trans hold))
  have hlook : ∀ a, ¬ (Purpose.look = .write ∧ a) := by simp
  induction names generalizing here with
  | nil => simp [stretch, Place.IsForFile]
  | cons name rest ih =>
    rcases Path.segment_cases name with hskip | rfl | hn
    · rw [stretch_stay _ _ _ hskip, stretch_stay _ _ _ hskip]
      exact ih here
    · rw [stretch_up, stretch_up]
      exact ih here.dropLast
    rw [stretch_name d .write here hn, stretch_name _ .look here hn, if_neg (hlook _)]
    by_cases hslash : rest.all (· = []) ∧ rest ≠ []
    · rw [if_pos ⟨rfl, hslash⟩]
      simp [Place.IsForFile]
    rw [if_neg fun h => hslash h.2]
    by_cases hlong : nameLimit < Utf8.size name
    · rw [if_pos hlong]
      simp [Place.IsForFile]
    rw [if_neg hlong, if_neg hlong]
    cases he : d.get? (here ++ [name]) with
    | none =>
      by_cases hlast : rest.all (· = []) = true
      · have hrest : rest = [] := by_contra fun h => hslash ⟨hlast, h⟩
        simp only [hlast, if_true]
        rintro (hfree | ⟨old, hfound⟩)
        · cases hfree
          rw [get?_put_self]
          simp [hrest]
        · simp at hfound
      · simp [hlast, Place.IsForFile]
    | some e =>
      cases e with
      | directory =>
        rw [hkeep he (by simp)]
        exact ih (here ++ [name])
      | link target =>
        rw [hkeep he (by simp)]
        simp
      | file old =>
        by_cases hrest : rest = []
        · simp only [hrest, true_or, if_true]
          rintro (hfree | ⟨old, hfound⟩)
          · simp at hfree
          · cases hfound
            rw [get?_put_self]
        · simp [hrest, Place.IsForFile]

theorem walk_put_file {l : Location} (content : Bytes)
    (hl : d.get? l = none ∨ ∃ old, d.get? l = some (.file old)) {n : ℕ} {here : Location}
    {names : List Text} (h : (d.walk .write n here names).IsForFile l) :
    (d.put l (.file content)).walk .look n here names = .found l (.file content) := by
  fun_induction walk d .write n here names with
  | case1 here names place hs =>
    have hput := stretch_put_file content hl here names
    rw [hs] at hput
    rw [walk, hput h]
  | case2 here names directory target rest hs => simp [Place.IsForFile] at h
  | case3 n here names place hs =>
    have hput := stretch_put_file content hl here names
    rw [hs] at hput
    rw [walk, hput h]
  | case4 n here names directory target rest hs ih =>
    have hput := stretch_put_file content hl here names
    rw [hs] at hput
    rw [walk, hput]
    exact ih h

/-- A path to write leads, once the file is there, to this file. -/
theorem locate_put_file {p : Text} {l : Location} (content : Bytes)
    (hl : d.get? l = none ∨ ∃ old, d.get? l = some (.file old))
    (h : (d.locate .write p).IsForFile l) :
    (d.put l (.file content)).locate .look p = .found l (.file content) := by
  unfold locate at h ⊢
  split
  · simp [Place.IsForFile, ‹p = []›] at h
  rw [if_neg ‹_›] at h
  split
  · simp [Place.IsForFile, ‹pathLimit ≤ _›] at h
  rw [if_neg ‹_›] at h
  exact walk_put_file content hl h

/-- The content stands where the path leads, in a file that is new or was there, and all other
entries are the same on both disks. -/
structure FileWritten (before after : Disk) (p : Text) (content : Bytes) (l : Location) : Prop where
  noZero : hasZero p = false
  place : after.locate .look p = .found l (.file content)
  file : after.get? l = some (.file content)
  earlier : before.get? l = none ∨ ∃ old, before.get? l = some (.file old)
  others : ∀ k, k ≠ l → after.get? k = before.get? k
  workingDirectory : after.workingDirectory = before.workingDirectory

theorem WellFormed.fileWritten (hw : d.WellFormed) {p : Text} {content : Bytes}
    (h : d.write p content = .ok d') : ∃ l, FileWritten d d' p content l := by
  obtain ⟨l, rfl, hz, hp⟩ := write_cases h
  have hfits := locate_fits hw .write hz
  have hl : (∃ front name, l = front ++ [name]) ∧
      (d.get? l = none ∨ ∃ old, d.get? l = some (.file old)) := by
    rcases hp with ⟨old, hp⟩ | hp
    · rw [hp] at hfits
      have hold : d.get? l = some (.file old) := hfits
      rcases List.eq_nil_or_concat' l with rfl | hl
      · simp at hold
      · exact ⟨hl, .inr ⟨old, hold⟩⟩
    · rw [hp] at hfits
      obtain ⟨front, name, hl, -, -, hnone⟩ := hfits
      exact ⟨⟨front, name, hl⟩, .inl hnone⟩
  obtain ⟨⟨front, name, rfl⟩, hbefore⟩ := hl
  exact ⟨_, hz, locate_put_file content hbefore hp.symm, get?_put_self .., hbefore,
    fun k hk => get?_put_of_ne d _ hk.symm, rfl⟩

theorem FileWritten.read {p : Text} {content : Bytes} {l : Location}
    (h : FileWritten d d' p content l) : d'.read p = .ok content := by
  simp [Disk.read, h.noZero, h.place]

end Disk

/-- The text of these bytes reshaped, as it is written. -/
def reshapedBytes (content : Bytes) : Bytes := Utf8.encode (transform (Utf8.decode content))

/-- A file is not read, or it is read and not written, or it is written. -/
theorem migrateFile_outcomes (s : Session) (inputPath outputPath : Text) :
    (∃ fault, s.disk.read inputPath = .error fault ∧
      migrateFile s inputPath outputPath = (s, .error (.file .fileRead inputPath fault.raised))) ∨
    ∃ content, s.disk.read inputPath = .ok content ∧
      let fragments := findFragments (Utf8.decode content)
      let logged := s.log (reshapingEvent (Path.base inputPath) inputPath fragments)
      (∃ fault, s.disk.write outputPath (reshapedBytes content) = .error fault ∧
        migrateFile s inputPath outputPath =
          (logged, .error (.file .fileWrite outputPath fault.raised))) ∨
      ∃ d, s.disk.write outputPath (reshapedBytes content) = .ok d ∧
        migrateFile s inputPath outputPath =
          ({ logged with disk := d },
            .ok ⟨Path.base inputPath, inputPath, outputPath, fragments.length⟩) := by
  cases hread : s.disk.read inputPath with
  | error fault =>
    refine .inl ⟨fault, rfl, ?_⟩
    simp only [migrateFile, hread, AccessFault.failure_raised]
  | ok content =>
    refine .inr ⟨content, rfl, ?_⟩
    have hout : Utf8.encode (reshape (Utf8.decode content)).output = reshapedBytes content := rfl
    have hdisk (e : Event) : (s.log e).disk = s.disk := rfl
    cases hwrite : s.disk.write outputPath (reshapedBytes content) with
    | error fault =>
      refine .inl ⟨fault, rfl, ?_⟩
      simp only [migrateFile, hread, fragments_reshape, hout, hdisk, hwrite,
        AccessFault.failure_raised]
    | ok d =>
      refine .inr ⟨d, rfl, ?_⟩
      simp only [migrateFile, hread, fragments_reshape, hout, hdisk, hwrite]

/-- What a file was that is migrated, and what was written, logged and returned for it. -/
structure MigratesFile (s : Session) (inputPath outputPath : Text) (content : Bytes) (s' : Session)
    (file : FileResult) : Prop where
  read : s.disk.read inputPath = .ok content
  written : s.disk.write outputPath (reshapedBytes content) = .ok s'.disk
  events : s'.events = s.events ++ [reshapingEvent (Path.base inputPath) inputPath
    (findFragments (Utf8.decode content))]
  notices : s'.notices = s.notices
  file_eq : file = ⟨Path.base inputPath, inputPath, outputPath,
    (findFragments (Utf8.decode content)).length⟩

theorem exists_migratesFile {s s' : Session} {inputPath outputPath : Text} {file : FileResult}
    (h : migrateFile s inputPath outputPath = (s', .ok file)) :
    ∃ content, MigratesFile s inputPath outputPath content s' file := by
  rcases migrateFile_outcomes s inputPath outputPath with
    ⟨fault, -, he⟩ | ⟨content, hread, ⟨fault, -, he⟩ | ⟨d, hwrite, he⟩⟩
  · simp [he] at h
  · simp [he] at h
  · obtain ⟨rfl, hok⟩ := Prod.mk.inj (he.symm.trans h)
    exact ⟨content, hread, hwrite, rfl, rfl, (Except.ok.inj hok).symm⟩

/-- What is written can be read where it was written. -/
theorem MigratesFile.read_output {s s' : Session} {inputPath outputPath : Text} {content : Bytes}
    {file : FileResult} (h : MigratesFile s inputPath outputPath content s' file)
    (hw : s.disk.WellFormed) :
    s'.disk.WellFormed ∧ s'.disk.read outputPath = .ok (reshapedBytes content) := by
  obtain ⟨l, hl⟩ := hw.fileWritten h.written
  exact ⟨(hw.write h.written).1, hl.read⟩

/-- A file that is migrated can be read reshaped under its output path, and the file there is the
only entry that is new or has changed. Where one of the two files cannot be opened, that is what is
raised, and the disk is as before. -/
theorem migrateFile_writes_one (s : Session) (inputPath outputPath : Text)
    (hw : s.disk.WellFormed) :
    let r := migrateFile s inputPath outputPath
    r.1.disk.WellFormed ∧ match r.2 with
      | .ok file => ∃ content l, s.disk.read inputPath = .ok content ∧
        file = ⟨Path.base inputPath, inputPath, outputPath,
          (findFragments (Utf8.decode content)).length⟩ ∧
        r.1.disk.read outputPath = .ok (reshapedBytes content) ∧
        s.disk.FileWritten r.1.disk outputPath (reshapedBytes content) l
      | .error e => r.1.disk = s.disk ∧
        ((∃ fault, s.disk.read inputPath = .error fault ∧
          e = .file .fileRead inputPath fault.raised) ∨
        ∃ content fault, s.disk.read inputPath = .ok content ∧
          s.disk.write outputPath (reshapedBytes content) = .error fault ∧
          e = .file .fileWrite outputPath fault.raised) := by
  rcases migrateFile_outcomes s inputPath outputPath with
    ⟨fault, hread, he⟩ | ⟨content, hread, ⟨fault, hwrite, he⟩ | ⟨d, hwrite, he⟩⟩
  · rw [he]
    exact ⟨hw, rfl, .inl ⟨fault, hread, rfl⟩⟩
  · rw [he]
    exact ⟨hw, rfl, .inr ⟨content, fault, hread, hwrite, rfl⟩⟩
  · rw [he]
    obtain ⟨l, hl⟩ := hw.fileWritten hwrite
    exact ⟨(hw.write hwrite).1, content, l, hread, rfl, hl.read, hl⟩

/-- One old graph, and a link to a free name in an empty directory. -/
def danglingOutput : Disk :=
  (((Disk.mk .empty []).put ["a.ron".toList]
    (.file (Utf8.encode "(name: \"x\", ty: \"Clip\", inner: (1))".toList))).put
    ["out".toList] .directory).put ["latest".toList] (.link "out/./b.ron".toList)

/-- The file that is made is the target of the link. -/
theorem migrateFile_writes_target :
    let s := Session.start danglingOutput
    let r := migrateFile s "./a.ron".toList "latest".toList
    let graph := Utf8.encode "(name: \"x\", ty: \"Clip\", inner: (1))".toList
    s.disk.WellFormed ∧
      r.2 = .ok ⟨"a.ron".toList, "./a.ron".toList, "latest".toList, 1⟩ ∧
      r.1.disk.WellFormed ∧ ∃ l, r.1.disk.read "latest".toList = .ok (reshapedBytes graph) ∧
        s.disk.FileWritten r.1.disk "latest".toList (reshapedBytes graph) l ∧
        l = ["out".toList, "b.ron".toList] := by
  intro s r graph
  have hw : danglingOutput.WellFormed := by decide +kernel
  have hok : r.2 = .ok ⟨"a.ron".toList, "./a.ron".toList, "latest".toList, 1⟩ := by rfl
  have hwrites := migrateFile_writes_one s "./a.ron".toList "latest".toList hw
  have hread : s.disk.read "./a.ron".toList = .ok graph := by rfl
  have hplace : r.1.disk.locate .look "latest".toList =
      .found ["out".toList, "b.ron".toList] (.file (reshapedBytes graph)) := by rfl
  obtain ⟨hwell, hmatch⟩ := hwrites
  rw [show (migrateFile s "./a.ron".toList "latest".toList).2 = _ from hok] at hmatch
  obtain ⟨content, l, hcontent, -, hback, hwritten⟩ := hmatch
  obtain rfl : content = graph := Except.ok.inj (hcontent.symm.trans hread)
  have hl := hwritten.place.symm.trans hplace
  cases hl
  exact ⟨hw, hok, hwell, _, hback, hwritten, rfl⟩

end NodeReshape
