import Mathlib.Data.List.Sort
import NodeReshape.Proofs.EnsuredDirectory
import NodeReshape.Proofs.InputPreservation

/-!
# Migrating again

On a disk without links a migration takes the eligible files up to the first that cannot be opened.
Which file that is depends on the directories and on the lengths of paths only, and neither changes
when files are written. The input directory is not the output directory, so its files stay as they
are. A second migration takes the same files, writes what is there already and ends alike.
-/
namespace NodeReshape
namespace Disk

variable {d d' : Disk} {l : Location}

/-- What is there already can be put there without any change. -/
theorem put_eq_self {name : Text} {e : Entry} (h : d.get? (l ++ [name]) = some e) :
    d.put (l ++ [name]) e = d := by
  rw [get?_concat] at h
  have hsame : d.entries.insert (l ++ [name]) e = d.entries := by
    apply Std.ExtTreeMap.ext_getElem?
    intro k
    rw [Std.ExtTreeMap.getElem?_insert]
    split
    · rename_i hk
      rw [← Std.LawfulEqCmp.eq_of_compare hk, h]
    · rfl
  rw [put, hsame]

theorem putFiles_eq_self {files : List (Text × Bytes)}
    (h : ∀ f ∈ files, d.get? (l ++ [f.1]) = some (.file f.2)) : d.putFiles l files = d := by
  induction files with
  | nil => rfl
  | cons f files ih =>
    rw [putFiles, put_eq_self (h f List.mem_cons_self)]
    exact ih fun g hg => h g (List.mem_cons_of_mem _ hg)

/-- The entries of a directory stand in the order of their names. -/
theorem children_pairwise (d : Disk) (l : Location) :
    (d.children l).Pairwise fun a b => compare (l ++ [a.1]) (l ++ [b.1]) = .lt := by
  rw [children, List.pairwise_filterMap]
  refine Std.ExtTreeMap.ordered_keys_toList.imp ?_
  rintro ⟨k, e⟩ ⟨k', e'⟩ hlt a ha b hb
  dsimp only at hlt ha hb
  split at ha
  · rename_i name hk
    split at hb
    · rename_i name' hk'
      cases ha
      cases hb
      rw [after?_eq_some_iff.mp hk, after?_eq_some_iff.mp hk'] at hlt
      exact hlt
    · simp at hb
  · simp at ha

/-- A directory has the same listing on two disks that have the same entries there. -/
theorem children_congr (h : ∀ name, d'.get? (l ++ [name]) = d.get? (l ++ [name])) :
    d'.children l = d.children l := by
  have hirrefl : Std.Irrefl fun a b : Text × Entry =>
      compare (l ++ [a.1]) (l ++ [b.1]) = .lt := ⟨fun a ha => by simp at ha⟩
  have hanti : Std.Antisymm fun a b : Text × Entry =>
      compare (l ++ [a.1]) (l ++ [b.1]) = .lt := by
    refine ⟨fun a b hab hba => ?_⟩
    have hswap : compare (l ++ [a.1]) (l ++ [b.1]) = (compare (l ++ [b.1]) (l ++ [a.1])).swap :=
      Std.OrientedCmp.eq_swap
    rw [hba] at hswap
    simp [hab] at hswap
  refine (children_pairwise d' l).eq_of_mem_iff (children_pairwise d l) ?_
  rintro ⟨name, e⟩
  rw [mem_children_iff, mem_children_iff, h]

/-- Both paths of a file of the input directory can be opened: they are short enough, and no
directory has the place of the output. -/
def takes (d : Disk) (c : Config) (f : Text × Bytes) : Bool :=
  Utf8.size (Path.join c.inputDir f.1) < pathLimit &&
    Utf8.size (Path.join c.outputDir f.1) < pathLimit &&
    d.get? (d.spelled c.outputDir ++ [f.1]) ≠ some .directory

theorem takes_iff {c : Config} {f : Text × Bytes} : d.takes c f = true ↔
    InReach c [f] ∧ d.get? (d.spelled c.outputDir ++ [f.1]) ≠ some .directory := by
  simp [takes, InReach]

/-- Which files can be opened depends on the directories only. -/
theorem Keeps.takes_eq (hk : Keeps d d') (hk' : Keeps d' d) (c : Config) :
    d'.takes c = d.takes c := by
  funext f
  have hspelled : d'.spelled c.outputDir = d.spelled c.outputDir := by
    rw [spelled, hk.workingDirectory, spelled]
  apply Bool.eq_iff_iff.mpr
  rw [takes_iff, takes_iff, hspelled]
  exact and_congr_right fun _ => not_congr ⟨hk'.directory _, hk.directory _⟩

theorem LinkFree.none_or_file (hl : d.LinkFree) (h : d.get? l ≠ some .directory) :
    d.get? l = none ∨ ∃ old, d.get? l = some (.file old) := by
  cases he : d.get? l with
  | none => exact .inl rfl
  | some e =>
    cases e with
    | file old => exact .inr ⟨old, rfl⟩
    | directory => exact absurd he h
    | link t => exact absurd he (hl _ _)

end Disk

section Pass

variable {c : Config} {s : Session}

/-- The pass took these files: it wrote them and told the reporter. -/
structure Took (c : Config) (s : Session) (files : List (Text × Bytes)) (s' : Session) : Prop where
  disk : s'.disk = s.disk.withReshaped c files
  notices : s'.notices = s.notices ++ told (some .console) files

theorem Took.cons {f : Text × Bytes} {files : List (Text × Bytes)} {s' : Session}
    (h : Took c (afterFile c (some .console) s f) files s') : Took c s (f :: files) s' where
  disk := h.disk
  notices := by
    rw [told_cons, ← List.append_assoc]
    exact h.notices

/-- With a reporter that never objects, a pass takes the eligible files up to the first that cannot
be opened, and it ends well when all of them can. -/
theorem migrateEntries_took (entries : List (Text × Entry)) (hr : Ready c s.disk)
    (hn : ((eligibleFiles c.extension entries).map Prod.fst).Nodup)
    (hf : ∀ f ∈ eligibleFiles c.extension entries,
      s.disk.get? (s.disk.spelled c.inputDir ++ [f.1]) = some (.file f.2)) :
    Took c s ((eligibleFiles c.extension entries).takeWhile (s.disk.takes c))
      (migrateEntries c (some .console) entries s).1 ∧
    ((∃ results, (migrateEntries c (some .console) entries s).2 = .ok results) ↔
      ∀ f ∈ eligibleFiles c.extension entries, s.disk.takes c f = true) := by
  induction entries using eligibleFiles_induction generalizing s with
  | nil => exact ⟨⟨rfl, by simp [migrateEntries]⟩, by simp [migrateEntries]⟩
  | skip e rest files he ih =>
    rw [migrateEntries, if_neg he]
    obtain ⟨⟨hdisk, hnotices⟩, hok⟩ := ih (s := s.log (.entrySkipped e.1)) hr hn hf
    exact ⟨⟨hdisk, hnotices⟩, hok⟩
  | file f rest files he ih =>
    obtain ⟨hnew, hn⟩ := List.nodup_cons.mp hn
    have hkind : isEligible (Entry.file f.2).kind f.1 c.extension = true := he
    have hfile := hf f List.mem_cons_self
    have hname := hr.wellFormed.named _ _ _ hfile
    rw [migrateEntries, if_pos hkind]
    rcases migrateFile_cases hr hfile with
      ⟨fault, hread, hm⟩ | ⟨fault, hwrite, hm⟩ | ⟨hreach, hd, hm⟩
    · have hnot : ¬ s.disk.takes c f = true := fun ht => by
        have hshort := ((Disk.takes_iff.mp ht).1 f List.mem_cons_self).1
        rw [hr.input.read_join hr.wellFormed hr.linkFree hfile, if_neg (by omega)] at hread
        simp at hread
      rw [hm, List.takeWhile_cons_of_neg hnot]
      exact ⟨⟨rfl, by simp⟩, by simp [hnot]⟩
    · have hnot : ¬ s.disk.takes c f = true := fun ht => by
        obtain ⟨hreach, hd⟩ := Disk.takes_iff.mp ht
        rw [hr.output.write_join_eq_ok hr.wellFormed hr.linkFree hname
          (hreach f List.mem_cons_self).2 hd] at hwrite
        simp at hwrite
      rw [hm, List.takeWhile_cons_of_neg hnot]
      exact ⟨⟨rfl, by simp [afterReshaping, Session.log]⟩, by simp [hnot]⟩
    · have ht : s.disk.takes c f = true := Disk.takes_iff.mpr ⟨hreach, hd⟩
      have hwrites : s.disk.WritesTo (afterFile c (some .console) s f).disk :=
        .put _ (hr.linkFree.none_or_file hd)
      -- A file that was written has no part in what can be opened, so the rest is judged as before.
      have hstay : (afterFile c (some .console) s f).disk.takes c = s.disk.takes c :=
        hwrites.kept.takes_eq hwrites.keeps c
      obtain ⟨htook, hok⟩ := ih (s := afterFile c (some .console) s f)
        (hr.put hname hd (reshapedFile f).2) hn fun g hg => by
          have hne : f.1 ≠ g.1 := fun h => hnew (List.mem_map.mpr ⟨g, hg, h.symm⟩)
          exact (get?_afterFile hne).trans (hf g (List.mem_cons_of_mem _ hg))
      rw [hstay] at htook hok
      rw [hm, List.takeWhile_cons_of_pos ht]
      refine ⟨htook.cons, ?_⟩
      rw [List.forall_mem_cons, and_iff_right ht, ← hok]
      change (∃ results, ((migrateEntries c (some .console) rest
        (afterFile c (some .console) s f)).2.map (fileResult c f :: ·)) = .ok results) ↔ _
      cases (migrateEntries c (some .console) rest (afterFile c (some .console) s f)).2 <;>
        simp [Except.map]

/-- The files that a migration on the disk takes: the eligible ones up to the first that cannot be
opened, once the output directory is made. -/
def Disk.taken (d : Disk) (c : Config) : List (Text × Bytes) :=
  if (d.ensureDirectory c.outputDir).2 = .ok () then
    ((d.ensureDirectory c.outputDir).1.eligible c).takeWhile
      ((d.ensureDirectory c.outputDir).1.takes c)
  else []

/-- A migration on the disk comes to its end: both directories are there in time, and all eligible
files can be opened. -/
def Disk.Completes (d : Disk) (c : Config) : Prop :=
  (d.ensureDirectory c.outputDir).2 = .ok () ∧
    (∃ entries, (d.ensureDirectory c.outputDir).1.list c.inputDir = .ok entries) ∧
    ∀ f ∈ (d.ensureDirectory c.outputDir).1.eligible c,
      (d.ensureDirectory c.outputDir).1.takes c f = true

theorem migrateDirectory_took (c : Config) (s : Session) (hw : s.disk.WellFormed)
    (hl : s.disk.LinkFree) :
    let r := migrateDirectory c (some .console) s
    Took c { s with disk := (s.disk.ensureDirectory c.outputDir).1 } (s.disk.taken c) r.1 ∧
      ((∃ result, r.2 = .ok result) ↔ s.disk.Completes c) := by
  rcases migrateDirectory_cases c (some .console) s with
    ⟨fault, hmade, he⟩ | ⟨fault, hmade, hlist, he⟩ | ⟨entries, hmade, hlist, he⟩
  · rw [he]
    refine ⟨⟨?_, ?_⟩, ?_⟩
    · simp [Disk.taken, hmade, Disk.withReshaped, Disk.putFiles]
    · simp [Disk.taken, hmade]
    · simp [Disk.Completes, hmade]
  · rw [he]
    have hnone : (s.disk.ensureDirectory c.outputDir).1.eligible c = [] := by
      rw [Disk.eligible, hlist]
    refine ⟨⟨?_, ?_⟩, ?_⟩
    · simp [Disk.taken, hnone, Disk.withReshaped, Disk.putFiles]
    · simp [Disk.taken, hnone]
    · simp [Disk.Completes, hlist]
  · have hready := (ready_of_listed hw hl hmade hlist).1
    have hg := (Disk.ensureDirectory_grows hw c.outputDir).2
    have hnodup := eligible_nodup (c := c) hw hl
    have hfiles : ∀ f ∈ (s.disk.ensureDirectory c.outputDir).1.eligible c,
        (s.disk.ensureDirectory c.outputDir).1.get?
          ((s.disk.ensureDirectory c.outputDir).1.spelled c.inputDir ++ [f.1]) =
            some (.file f.2) := fun f hf => by
      rw [hg.spelled]
      exact hg.get?_eq_some (get?_of_mem_eligible hw hl hf)
    rw [eligible_of_listed hlist] at hnodup hfiles
    obtain ⟨⟨hdisk, hnotices⟩, hok⟩ :=
      migrateEntries_took (s := atListing c s entries) entries hready hnodup hfiles
    have htaken : s.disk.taken c = (eligibleFiles c.extension entries).takeWhile
        ((s.disk.ensureDirectory c.outputDir).1.takes c) := by
      rw [Disk.taken, if_pos hmade, eligible_of_listed hlist]
    rw [he, htaken]
    refine ⟨⟨hdisk, hnotices⟩, ?_⟩
    rw [Disk.Completes, eligible_of_listed hlist]
    simp only [hmade, hlist, true_and, Except.ok.injEq, exists_eq']
    refine Iff.trans ?_ hok
    cases (migrateEntries c (some .console) entries (atListing c s entries)).2 <;>
      simp [Except.map]

end Pass

section Again

variable {c : Config} {s : Session}

namespace Disk

variable {d d' : Disk}

theorem Keeps.linkFree (hk : Keeps d' d) (hl : d.LinkFree) : d'.LinkFree := fun l t h =>
  hl l t (hk.link l t h)

theorem taken_nodup (hw : d.WellFormed) (hl : d.LinkFree) (c : Config) :
    ((d.taken c).map Prod.fst).Nodup := by
  unfold taken
  split
  · exact ((List.takeWhile_sublist _).map _).nodup (eligible_nodup (s := .start d) hw hl)
  · simp

/-- The second disk is what a migration leaves of the first one. -/
structure Migrated (c : Config) (d d' : Disk) : Prop where
  wellFormed : d'.WellFormed
  writesTo : (d.ensureDirectory c.outputDir).1.WritesTo d'
  disk : d' = (d.ensureDirectory c.outputDir).1.withReshaped c (d.taken c)

section Migrated

variable (h : Migrated c d d') (hw : d.WellFormed) (hl : d.LinkFree)

include h hw

theorem Migrated.spelled (p : Text) : d'.spelled p = d.spelled p := by
  rw [Disk.spelled, h.writesTo.workingDirectory, ← Disk.spelled,
    (ensureDirectory_grows hw c.outputDir).2.spelled]

/-- The input directory is not the one that files are written to. -/
theorem Migrated.get?_input (hne : d.spelled c.inputDir ≠ d.spelled c.outputDir) (name : Text) :
    d'.get? (d.spelled c.inputDir ++ [name]) =
      (d.ensureDirectory c.outputDir).1.get? (d.spelled c.inputDir ++ [name]) := by
  rw [h.disk, withReshaped, (ensureDirectory_grows hw c.outputDir).2.spelled]
  refine get?_putFiles_of_ne _ fun f _ he => ?_
  exact hne (List.append_inj' he rfl).1.symm

include hl

/-- No further directory is made. -/
theorem Migrated.ensureDirectory : (d'.ensureDirectory c.outputDir).1 = d' ∧
    ((d'.ensureDirectory c.outputDir).2 = .ok () ↔
      (d.ensureDirectory c.outputDir).2 = .ok ()) := by
  -- Where the output directory was not made, no file was written either.
  by_cases hmade : (d.ensureDirectory c.outputDir).2 = .ok ()
  · obtain ⟨l, hout⟩ := denotes_of_ensure hw hmade
    rw [(hout.of_keeps h.writesTo.kept).ensureDirectory_eq h.wellFormed]
    simp [hmade]
  · have hd : d' = (d.ensureDirectory c.outputDir).1 := by
      rw [h.disk, taken, if_neg hmade]
      rfl
    rw [hd]
    exact hl.ensureDirectory_again hw c.outputDir

theorem Migrated.list_iff (hne : d.spelled c.inputDir ≠ d.spelled c.outputDir)
    (entries : List (Text × Entry)) : d'.list c.inputDir = .ok entries ↔
      (d.ensureDirectory c.outputDir).1.list c.inputDir = .ok entries := by
  have hg := (ensureDirectory_grows hw c.outputDir).2
  have hsame : d'.children (d.spelled c.inputDir) =
      (d.ensureDirectory c.outputDir).1.children (d.spelled c.inputDir) :=
    children_congr (h.get?_input hw hne)
  have hplace : ∀ l, (d.ensureDirectory c.outputDir).1.Denotes c.inputDir l →
      l = d.spelled c.inputDir := fun l hin => by
    rw [((hg.linkFree hl).eq_spelled hin).2, hg.spelled]
  rw [list_eq_ok_iff, list_eq_ok_iff]
  constructor
  · rintro ⟨l, hin, rfl⟩
    have hin' := hin.of_keeps h.writesTo.keeps
    obtain rfl := hplace l hin'
    exact ⟨_, hin', hsame⟩
  · rintro ⟨l, hin, rfl⟩
    obtain rfl := hplace l hin
    exact ⟨_, hin.of_keeps h.writesTo.kept, hsame.symm⟩

theorem Migrated.eligible (hne : d.spelled c.inputDir ≠ d.spelled c.outputDir) :
    d'.eligible c = (d.ensureDirectory c.outputDir).1.eligible c := by
  have hiff := h.list_iff hw hl hne
  unfold Disk.eligible
  cases hlist : (d.ensureDirectory c.outputDir).1.list c.inputDir with
  | ok entries => rw [(hiff entries).mpr hlist]
  | error fault =>
    cases hlist' : d'.list c.inputDir with
    | ok entries => simp [(hiff entries).mp hlist'] at hlist
    | error fault' => rfl

/-- The next migration takes the same files. -/
theorem Migrated.taken_eq (hne : d.spelled c.inputDir ≠ d.spelled c.outputDir) :
    d'.taken c = d.taken c := by
  obtain ⟨hd, hok⟩ := h.ensureDirectory hw hl
  simp only [taken, hok]
  rw [hd, h.eligible hw hl hne, h.writesTo.kept.takes_eq h.writesTo.keeps]

theorem Migrated.completes_iff (hne : d.spelled c.inputDir ≠ d.spelled c.outputDir) :
    d'.Completes c ↔ d.Completes c := by
  obtain ⟨hd, hok⟩ := h.ensureDirectory hw hl
  rw [Completes, Completes, hok, hd, h.eligible hw hl hne,
    h.writesTo.kept.takes_eq h.writesTo.keeps, exists_congr (h.list_iff hw hl hne)]

/-- Its files are written already. -/
theorem Migrated.withReshaped_taken : d'.withReshaped c (d.taken c) = d' := by
  have hplace : d'.spelled c.outputDir = (d.ensureDirectory c.outputDir).1.spelled c.outputDir := by
    rw [h.spelled hw, (ensureDirectory_grows hw c.outputDir).2.spelled]
  have hnodup : (((d.taken c).map reshapedFile).map Prod.fst).Nodup := by
    rw [List.map_map]
    exact taken_nodup hw hl c
  rw [withReshaped, hplace]
  refine putFiles_eq_self fun f hf => ?_
  rw [h.disk]
  exact get?_putFiles_of_mem hnodup hf

end Migrated

end Disk

theorem migrateDirectory_migrated (c : Config) (s : Session) (hw : s.disk.WellFormed)
    (hl : s.disk.LinkFree) :
    Disk.Migrated c s.disk (migrateDirectory c (some .console) s).1.disk where
  wellFormed := (migrateDirectory_writesTo c _ hw).1
  writesTo := (migrateDirectory_writesTo c _ hw).2
  disk := (migrateDirectory_took c s hw hl).1.disk

/-- A run with a reporter that never objects tells it of the files that were taken, and then of its
completion when it comes to its end. -/
theorem run_told (source : Config.Source) (hw : s.disk.WellFormed) (hl : s.disk.LinkFree)
    (hc : resolveConfig s.disk.workingPath source = .ok c) :
    let r := run source .console s
    (s.disk.Completes c ∧ r.2 = 0 ∧
      r.1.notices = s.notices ++ (told (some .console) (s.disk.taken c) ++ [.completed])) ∨
    (¬ s.disk.Completes c ∧ r.2 = 1 ∧
      r.1.notices = s.notices ++ told (some .console) (s.disk.taken c)) := by
  obtain ⟨⟨-, hnotices⟩, hok⟩ := migrateDirectory_took c s hw hl
  dsimp only at hnotices
  rw [run, attempt, hc, ← hok]
  dsimp only
  rcases hm : migrateDirectory c (some .console) s with ⟨s', e | result⟩
  · rw [hm] at hnotices
    exact .inr ⟨by simp, rfl, hnotices⟩
  · rw [hm] at hnotices
    refine .inl ⟨⟨result, rfl⟩, rfl, ?_⟩
    rw [← List.append_assoc, ← hnotices]
    rfl

/-- The second of two runs with the same settings finds the disk as it leaves it, and tells the
reporter what the first one told it. -/
theorem run_told_again (source : Config.Source) (s' : Session) (hw : s.disk.WellFormed)
    (hl : s.disk.LinkFree) (hc : resolveConfig s.disk.workingPath source = .ok c)
    (hd : s'.disk = (run source .console s).1.disk) :
    (run source .console s').1.disk = s'.disk ∧
      (run source .console s').2 = (run source .console s).2 ∧
      ∃ notices, (run source .console s).1.notices = s.notices ++ notices ∧
        (run source .console s').1.notices = s'.notices ++ notices := by
  -- The settings were accepted, so the files of the input directory are no outputs.
  have hne : s.disk.spelled c.inputDir ≠ s.disk.spelled c.outputDir := fun he => by
    have hsame := sameDirectory_of_spelled_eq hw he
    rw [Config.sameDirectory_of_resolveConfig hc] at hsame
    simp at hsame
  have hm := migrateDirectory_migrated c s hw hl
  rw [← run_disk source .console hc, ← hd] at hm
  have hg := (Disk.ensureDirectory_grows hw c.outputDir).2
  have hpath : s'.disk.workingPath = s.disk.workingPath := by
    rw [Disk.workingPath, hm.writesTo.workingDirectory, hg.workingDirectory, Disk.workingPath]
  have hl' : s'.disk.LinkFree := hm.writesTo.keeps.linkFree (hg.linkFree hl)
  have hc' : resolveConfig s'.disk.workingPath source = .ok c := by rw [hpath, hc]
  refine ⟨?_, ?_⟩
  · rw [run_disk source .console hc', (migrateDirectory_took c s' hm.wellFormed hl').1.disk]
    change (s'.disk.ensureDirectory c.outputDir).1.withReshaped c (s'.disk.taken c) = s'.disk
    rw [(hm.ensureDirectory hw hl).1, hm.taken_eq hw hl hne, hm.withReshaped_taken hw hl]
  · have hagain := run_told source hm.wellFormed hl' hc'
    rw [hm.completes_iff hw hl hne, hm.taken_eq hw hl hne] at hagain
    rcases run_told source hw hl hc with ⟨hdone, hcode, htold⟩ | ⟨hnot, hcode, htold⟩
    · rcases hagain with ⟨-, hcode', htold'⟩ | ⟨hnot, -⟩
      · exact ⟨hcode'.trans hcode.symm, _, htold, htold'⟩
      · exact absurd hdone hnot
    · rcases hagain with ⟨hdone, -⟩ | ⟨-, hcode', htold'⟩
      · exact absurd hdone hnot
      · exact ⟨hcode'.trans hcode.symm, _, htold, htold'⟩

end Again

theorem Reporter.eq_console {r : Reporter} (h : ∀ earlier n, r.objection earlier n = none) :
    r = .console := by
  cases r with
  | mk objection => exact congrArg mk (funext fun earlier => funext (h earlier))

/-- On a disk without links, a second run with the same settings and a reporter that never objects
changes nothing, ends with the same exit code and shows the same lines, wherever the first one has
ended. -/
theorem run_again (source : Config.Source) (reporter : Reporter) (s s' : Session)
    (hw : s.disk.WellFormed) (hl : s.disk.LinkFree)
    (hquiet : ∀ earlier n, reporter.objection earlier n = none)
    (hd : s'.disk = (run source reporter s).1.disk) :
    let first := run source reporter s
    let second := run source reporter s'
    second.1.disk = s'.disk ∧ second.2 = first.2 ∧
      ∃ notices, first.1.notices = s.notices ++ notices ∧
        second.1.notices = s'.notices ++ notices ∧
        reporter.lines s'.notices notices = reporter.lines s.notices notices := by
  obtain rfl := Reporter.eq_console hquiet
  cases hc : resolveConfig s.disk.workingPath source with
  | ok c =>
    obtain ⟨hdisk, hcode, notices, hfirst, hsecond⟩ := run_told_again source s' hw hl hc hd
    refine ⟨hdisk, hcode, notices, hfirst, hsecond, ?_⟩
    rw [Reporter.lines_console, Reporter.lines_console]
  | error issues =>
    have hrun : run source .console s = (s.log (.migrationFailed (Config.invalid issues)), 1) := by
      rw [run, attempt, hc]
    have hsame : s'.disk = s.disk := by rw [hd, hrun]; rfl
    have hrun' :
        run source .console s' = (s'.log (.migrationFailed (Config.invalid issues)), 1) := by
      rw [run, attempt, hsame, hc]
    rw [hrun, hrun']
    exact ⟨rfl, rfl, [], by simp [Session.log], by simp [Session.log], rfl⟩

/-- The directory of `graphs` with a directory in it where the second graph would go. -/
def blockedGraphs : Disk :=
  (graphs.put ["in".toList, "new".toList] .directory).put
    ["in".toList, "new".toList, "b.ron".toList] .directory

/-- Settings with the output directory inside the input directory. -/
def blockedSettings : Config.Source :=
  .entries [("inputDir".toList, some (.string "in".toList)),
    ("outputDir".toList, some (.string "in/new".toList))]

/-- Both runs end at the second graph, and the graph that the first one wrote stays. -/
theorem run_again_blocked :
    blockedGraphs.WellFormed ∧ blockedGraphs.LinkFree ∧
    (run blockedSettings .console (.start blockedGraphs)).2 = 1 ∧
    (run blockedSettings .console (.start blockedGraphs)).1.notices =
      [.fileTransformed "a.ron".toList] ∧
    let s := Session.start blockedGraphs
    let s' := (run blockedSettings .console s).1
    let first := run blockedSettings .console s
    let second := run blockedSettings .console s'
    second.1.disk = s'.disk ∧ second.2 = first.2 ∧
      ∃ notices, first.1.notices = s.notices ++ notices ∧
        second.1.notices = s'.notices ++ notices ∧
        Reporter.console.lines s'.notices notices = Reporter.console.lines s.notices notices := by
  have hw : blockedGraphs.WellFormed := by decide +kernel
  have hl : blockedGraphs.LinkFree := by decide +kernel
  refine ⟨hw, hl, by decide +kernel, by decide +kernel, ?_⟩
  exact run_again blockedSettings .console (.start blockedGraphs) _ hw hl (fun _ _ => rfl) rfl

end NodeReshape
