import NodeReshape.Proofs.BrokenBytes
import NodeReshape.Proofs.FileMigration
import NodeReshape.Proofs.RepeatedReshaping

/-!
# What becomes of the bytes of a file

A file is read as text, and text is written. So the bytes of a file without nodes come out as they
were only when they are those of a text; otherwise everything that forms no character is written as
U+FFFD. Once a file is written it is read as exactly the text that was meant, so a file that is
migrated over and over goes through the passes of the text first read.
-/
namespace NodeReshape

/-- A file that is said to be copied unchanged is written with the bytes of the text it is read as.
They are the bytes that were read just when these are the bytes of a text. -/
theorem copiedUnchanged_iff (s s' : Session) (inputPath outputPath : Text) (file : FileResult)
    (h : migrateFile s inputPath outputPath = (s', .ok file)) (hnone : file.fragmentCount = 0) :
    ∃ content t, s.disk.read inputPath = .ok content ∧ Utf8.ReadsAs content t ∧
      s'.events = s.events ++ [.copiedUnchanged (Path.base inputPath) inputPath] ∧
      s.disk.write outputPath (Utf8.encode t) = .ok s'.disk ∧
      (s.disk.WellFormed → s'.disk.read outputPath = .ok (Utf8.encode t)) ∧
      (Utf8.encode t = content ↔ ∃ t', content = Utf8.encode t') := by
  obtain ⟨content, hfile⟩ := exists_migratesFile h
  have hfound : findFragments (Utf8.decode content) = [] := by
    rw [hfile.file_eq] at hnone
    exact List.length_eq_zero_iff.mp hnone
  have hevents := hfile.events
  rw [hfound, reshapingEvent, if_pos rfl] at hevents
  have hbytes : reshapedBytes content = Utf8.encode (Utf8.decode content) := by
    rw [reshapedBytes, transform_of_findFragments_eq_nil hfound]
  have hwritten := hfile.written
  rw [hbytes] at hwritten
  refine ⟨content, Utf8.decode content, hfile.read, Utf8.readsAs_iff.mpr rfl, hevents, hwritten,
    fun hw => ?_, Utf8.wellFormed_iff⟩
  rw [← hbytes]
  exact (hfile.read_output hw).2

/-- A byte order mark, a character cut short, a whole one, and a byte of no character. -/
def brokenFile : Disk :=
  (Disk.mk .empty []).put ["a.ron".toList] (.file [0xEF, 0xBB, 0xBF, 0xE2, 0x82, 0x78, 0xFF])

theorem copiedUnchanged_iff_broken :
    let s := Session.start brokenFile
    let r := migrateFile s "a.ron".toList "b.ron".toList
    s.disk.WellFormed ∧ r.2 = .ok ⟨"a.ron".toList, "a.ron".toList, "b.ron".toList, 0⟩ ∧
      ∃ content t, s.disk.read "a.ron".toList = .ok content ∧ Utf8.ReadsAs content t ∧
        r.1.events = s.events ++ [.copiedUnchanged "a.ron".toList "a.ron".toList] ∧
        s.disk.write "b.ron".toList (Utf8.encode t) = .ok r.1.disk ∧
        r.1.disk.read "b.ron".toList = .ok (Utf8.encode t) ∧
        (Utf8.encode t = content ↔ ∃ t', content = Utf8.encode t') ∧
        t = "\uFEFF\uFFFDx\uFFFD".toList ∧ ¬ ∃ t', content = Utf8.encode t' := by
  intro s r
  have hw : s.disk.WellFormed := by decide +kernel
  have hok : r.2 = .ok ⟨"a.ron".toList, "a.ron".toList, "b.ron".toList, 0⟩ := by rfl
  obtain ⟨content, t, hread, hreads, hevents, hwrite, hback, hsame⟩ :=
    copiedUnchanged_iff s r.1 "a.ron".toList "b.ron".toList _ (Prod.ext rfl hok) rfl
  have hcontent : s.disk.read "a.ron".toList =
      .ok [0xEF, 0xBB, 0xBF, 0xE2, 0x82, 0x78, 0xFF] := by rfl
  obtain rfl := Except.ok.inj (hread.symm.trans hcontent)
  have ht : t = "\uFEFF\uFFFDx\uFFFD".toList :=
    (Utf8.readsAs_iff.mp hreads).symm.trans (by decide)
  have hbroken : Utf8.encode t ≠ [0xEF, 0xBB, 0xBF, 0xE2, 0x82, 0x78, 0xFF] := by
    rw [ht]
    decide
  exact ⟨hw, hok, _, t, hread, hreads, hevents, hwrite, hback hw, hsame, ht,
    fun h => hbroken (hsame.mpr h)⟩

/-- A byte of no character is said to be copied unchanged, and three others are written. -/
theorem copiedUnchanged_loneByte :
    let s := Session.start ((Disk.mk .empty []).put ["a.ron".toList] (.file [0xFF]))
    let r := migrateFile s "a.ron".toList "b.ron".toList
    s.disk.read "a.ron".toList = .ok [0xFF] ∧
      r.2 = .ok ⟨"a.ron".toList, "a.ron".toList, "b.ron".toList, 0⟩ ∧
      r.1.events = [.copiedUnchanged "a.ron".toList "a.ron".toList] ∧
      r.1.disk.read "b.ron".toList = .ok [0xEF, 0xBF, 0xBD] ∧
      r.1.disk.read "b.ron".toList ≠ s.disk.read "a.ron".toList := by
  intro s r
  have hread : s.disk.read "a.ron".toList = .ok [0xFF] := by rfl
  have hwritten : r.1.disk.read "b.ron".toList = .ok [0xEF, 0xBF, 0xBD] := by rfl
  refine ⟨hread, by rfl, by rfl, hwritten, ?_⟩
  rw [hread, hwritten]
  simp

/-- The calls that take a file along these paths, each reading what the one before it wrote. -/
inductive MigratesAlong : Session → Text → List Text → Session → List FileResult → Prop
  | stay (s : Session) (path : Text) : MigratesAlong s path [] s []
  | next {s s' s'' : Session} {path next : Text} {rest : List Text} {file : FileResult}
    {files : List FileResult} (here : migrateFile s path next = (s', .ok file))
    (behind : MigratesAlong s' next rest s'' files) :
    MigratesAlong s path (next :: rest) s'' (file :: files)

theorem counts_passes (n : ℕ) (document : Text) :
    ((passes n document).map fun r => r.fragments.length) =
      (List.range n).map fun k => (findFragments (transform^[k] document)).length := by
  induction n generalizing document with
  | zero => rfl
  | succ n ih =>
    rw [passes, List.map_cons, ih, List.range_succ_eq_map, List.map_cons, List.map_map,
      fragments_reshape]
    rfl

/-- A file that holds a text goes through the passes of this text. -/
theorem MigratesAlong.of_text {s s' : Session} {path : Text} {paths : List Text}
    {files : List FileResult} (h : MigratesAlong s path paths s' files) (hw : s.disk.WellFormed)
    {t : Text} (hread : s.disk.read path = .ok (Utf8.encode t)) :
    s'.disk.read (paths.getLast?.getD path) = .ok (Utf8.encode (transform^[paths.length] t)) ∧
      files.map FileResult.fragmentCount =
        (passes paths.length t).map fun r => r.fragments.length := by
  induction h generalizing t with
  | stay s path => exact ⟨hread, rfl⟩
  | @next s s' s'' path next rest file files here behind ih =>
    obtain ⟨content, hfile⟩ := exists_migratesFile here
    obtain rfl : content = Utf8.encode t := Except.ok.inj (hfile.read.symm.trans hread)
    obtain ⟨hw', hnext⟩ := hfile.read_output hw
    rw [reshapedBytes, Utf8.decode_encode] at hnext
    obtain ⟨hlast, hcounts⟩ := ih hw' hnext
    refine ⟨?_, ?_⟩
    · rw [List.getLast?_cons, Option.getD_some]
      exact hlast
    · rw [List.map_cons, hcounts, hfile.file_eq, List.length_cons, passes, List.map_cons,
        fragments_reshape, Utf8.decode_encode]

/-- However often a file is migrated on, its bytes end as those of the text first read, reshaped as
often, and every call counts the fragments of the pass that it makes. -/
theorem migratesAlong_read_last (s s' : Session) (path last : Text) (paths : List Text)
    (files : List FileResult) (hw : s.disk.WellFormed) (h : MigratesAlong s path paths s' files)
    (hlast : paths.getLast? = some last) :
    ∃ content t, s.disk.read path = .ok content ∧ Utf8.ReadsAs content t ∧
      s'.disk.read last = .ok (Utf8.encode (transform^[paths.length] t)) ∧
      files.map FileResult.fragmentCount =
        (List.range paths.length).map fun k => (findFragments (transform^[k] t)).length := by
  cases h with
  | stay => simp at hlast
  | @next _ s₁ _ _ next rest file files here behind =>
    obtain ⟨content, hfile⟩ := exists_migratesFile here
    obtain ⟨hw', hnext⟩ := hfile.read_output hw
    obtain ⟨hread, hcounts⟩ := behind.of_text hw' hnext
    rw [List.getLast?_cons, Option.some.injEq] at hlast
    subst hlast
    refine ⟨content, Utf8.decode content, hfile.read, Utf8.readsAs_iff.mpr rfl, hread, ?_⟩
    rw [← counts_passes, List.length_cons, passes, List.map_cons, List.map_cons, hcounts,
      hfile.file_eq, fragments_reshape]

/-- A byte of no character, and a node with another one in its inner text. -/
def nestedFile : Disk :=
  (Disk.mk .empty []).put ["a.ron".toList] (.file (0xFF :: Utf8.encode
    "(name: \"a\", ty: \"b\", inner: ((name: \"c\", ty: \"d\", inner: (1))))".toList))

theorem migratesAlong_read_last_nested :
    let s := Session.start nestedFile
    let paths := ["b.ron".toList, "c.ron".toList, "d.ron".toList]
    ∃ s' files, s.disk.WellFormed ∧ MigratesAlong s "a.ron".toList paths s' files ∧
      paths.getLast? = some "d.ron".toList ∧
      ∃ content t, s.disk.read "a.ron".toList = .ok content ∧ Utf8.ReadsAs content t ∧
        s'.disk.read "d.ron".toList = .ok (Utf8.encode (transform^[paths.length] t)) ∧
        files.map FileResult.fragmentCount =
          ((List.range paths.length).map fun k => (findFragments (transform^[k] t)).length) ∧
        files.map FileResult.fragmentCount = [1, 1, 0] := by
  intro s paths
  have hw : s.disk.WellFormed := by decide +kernel
  obtain ⟨r, hr⟩ : ∃ r, migrateFile s "a.ron".toList "b.ron".toList = r := ⟨_, rfl⟩
  obtain ⟨r', hr'⟩ : ∃ r', migrateFile r.1 "b.ron".toList "c.ron".toList = r' := ⟨_, rfl⟩
  obtain ⟨r'', hr''⟩ : ∃ r'', migrateFile r'.1 "c.ron".toList "d.ron".toList = r'' := ⟨_, rfl⟩
  have hb : r.2 = .ok ⟨"a.ron".toList, "a.ron".toList, "b.ron".toList, 1⟩ := by
    rw [← hr]
    rfl
  have hc : r'.2 = .ok ⟨"b.ron".toList, "b.ron".toList, "c.ron".toList, 1⟩ := by
    rw [← hr', ← hr]
    rfl
  have hd : r''.2 = .ok ⟨"c.ron".toList, "c.ron".toList, "d.ron".toList, 0⟩ := by
    rw [← hr'', ← hr', ← hr]
    rfl
  have hcalls : MigratesAlong s "a.ron".toList paths r''.1 _ :=
    .next (hr.trans (Prod.ext rfl hb)) (.next (hr'.trans (Prod.ext rfl hc))
      (.next (hr''.trans (Prod.ext rfl hd)) (.stay _ _)))
  obtain ⟨content, t, hread, hreads, hlast, hcounts⟩ :=
    migratesAlong_read_last s r''.1 _ "d.ron".toList paths _ hw hcalls rfl
  exact ⟨r''.1, _, hw, hcalls, rfl, content, t, hread, hreads, hlast, hcounts, rfl⟩

end NodeReshape
