import NodeReshape.Proofs.DiskChange

/-!
# Disks without links

Without links a walk ends at the location that its path spells. So a name joined to a path leads to
the entry of this name in the directory of the path, however the directory is spelled, and making
directories adds some on the way that the path spells.
-/
namespace NodeReshape

/-- The location of a place that was reached. -/
def Place.location? : Place → Option Location
  | found l _ => some l
  | free l => some l
  | failed _ => none

namespace Disk

variable {d : Disk}

theorem follow_of_all_nil {rest : List Text} (h : ∀ s ∈ rest, s = []) (here : Location) :
    Path.follow here rest = here := by
  induction rest with
  | nil => rfl
  | cons s rest ih =>
    rw [h s List.mem_cons_self, Path.follow_cons, Path.enter_nil]
    exact ih fun t ht => h t (List.mem_cons_of_mem _ ht)

/-- A walk that follows no link ends where its segments lead. -/
theorem stretch_location (purpose : Purpose) (here : Location) (names : List Text) :
    ∀ p l, d.stretch purpose here names = .arrived p → p.location? = some l →
      l = Path.follow here names := by
  induction here, names using stretch_induction with
  | arrived here =>
    rintro _ l ⟨⟩ hl
    exact (Option.some.inj hl).symm
  | stay here name rest hskip ih =>
    intro p l hp hl
    rw [Path.follow_cons, Path.enter, if_pos hskip]
    exact ih p l hp hl
  | up here rest ih =>
    intro p l hp hl
    rw [Path.follow_cons, Path.enter_dotdot]
    exact ih p l hp hl
  | failed here name rest e =>
    rintro _ l ⟨⟩ hl
    simp [Place.location?] at hl
  | free here name rest hn _ _ hr =>
    rintro _ l ⟨⟩ hl
    rw [Path.follow_cons, hn.enter, follow_of_all_nil hr]
    exact (Option.some.inj hl).symm
  | missing here name rest _ _ =>
    rintro _ l ⟨⟩ hl
    simp [Place.location?] at hl
  | enter here name rest hn _ ih =>
    intro p l hp hl
    rw [Path.follow_cons, hn.enter]
    exact ih p l hp hl
  | found here name rest e hn _ _ hr =>
    rintro _ l ⟨⟩ hl
    rw [Path.follow_cons, hn.enter, follow_of_all_nil hr]
    exact (Option.some.inj hl).symm
  | atLink here name rest target _ _ => simp

/-- Without links a walk never comes to one. -/
theorem LinkFree.exists_stretch (hl : d.LinkFree) (purpose : Purpose) (here : Location)
    (names : List Text) : ∃ p, d.stretch purpose here names = .arrived p := by
  induction here, names using stretch_induction with
  | arrived here => exact ⟨_, rfl⟩
  | stay here name rest _ ih => exact ih
  | up here rest ih => exact ih
  | failed here name rest e => exact ⟨_, rfl⟩
  | free here name rest _ _ _ _ => exact ⟨_, rfl⟩
  | missing here name rest _ _ => exact ⟨_, rfl⟩
  | enter here name rest _ _ ih => exact ih
  | found here name rest e _ _ _ _ => exact ⟨_, rfl⟩
  | atLink here name rest target _ ht => exact absurd ht (hl _ _)

theorem walk_of_stretch {purpose : Purpose} {here : Location} {names : List Text} {p : Place}
    (h : d.stretch purpose here names = .arrived p) (links : ℕ) :
    d.walk purpose links here names = p := by
  cases links <;> simp [walk, h]

/-- The location that a path spells from the working directory. -/
def spelled (d : Disk) (p : Text) : Location := Path.location d.workingDirectory p

@[simp] theorem spelled_put (d : Disk) (l : Location) (e : Entry) (p : Text) :
    (d.put l e).spelled p = d.spelled p := rfl

theorem GrowsTo.spelled {made : Location → Prop} {d' : Disk} (h : GrowsTo made d d') (p : Text) :
    d'.spelled p = d.spelled p := by
  rw [Disk.spelled, h.workingDirectory, Disk.spelled]

theorem LinkFree.locate_location (hl : d.LinkFree) {purpose : Purpose} {p : Text} {l : Location}
    (h : (d.locate purpose p).location? = some l) : p ≠ [] ∧ l = d.spelled p := by
  unfold locate at h
  split at h
  · simp [Place.location?] at h
  split at h
  · simp [Place.location?] at h
  obtain ⟨place, hp⟩ := hl.exists_stretch purpose (startOf d.workingDirectory p) (Path.segments p)
  rw [walk_of_stretch hp] at h
  exact ⟨‹_›, stretch_location purpose _ _ place l hp h⟩

theorem stretch_ups (purpose : Purpose) (up : ℕ) (here : Location) (rest : List Text) :
    d.stretch purpose here (List.replicate up Path.dotdot ++ rest) =
      d.stretch purpose (Path.follow here (List.replicate up Path.dotdot)) rest := by
  induction up generalizing here with
  | zero => rfl
  | succ up ih =>
    rw [List.replicate_succ, List.cons_append, stretch_up, ih, Path.follow_cons,
      Path.enter_dotdot]

/-- A walk passes the directories on the way to one that is there. -/
theorem WellFormed.stretch_names (hw : d.WellFormed) (purpose : Purpose) {here : Location}
    {names rest : List Text} (hn : ∀ s ∈ names, Path.IsName s)
    (hd : d.get? (here ++ names) = some .directory) (hr : ¬ ∀ s ∈ rest, s = []) :
    d.stretch purpose here (names ++ rest) = d.stretch purpose (here ++ names) rest := by
  induction names generalizing here with
  | nil => simp
  | cons s names ih =>
    rw [List.append_cons] at hd
    have hs := hw.directory_front hd
    have hlast : ¬ (names ++ rest).all (fun s => decide (s = [])) = true := fun h =>
      hr fun t ht => all_eq_nil_iff.mp h t (List.mem_append_right _ ht)
    have hshort : ¬ nameLimit < Utf8.size s := by
      have := (hw.named _ _ _ hs).short
      omega
    rw [List.cons_append, stretch_name d purpose here (hn s List.mem_cons_self).toIsProper,
      if_neg fun h => hlast h.2.1, if_neg hshort, hs]
    dsimp only
    rw [ih (fun t ht => hn t (List.mem_cons_of_mem _ ht)) hd, ← List.append_cons]

theorem stretch_last (purpose : Purpose) (here : Location) {name : Text} (hn : IsEntryName name)
    (hl : d.LinkFree) : d.stretch purpose here [name] = .arrived (match d.get? (here ++ [name]) with
      | none => .free (here ++ [name])
      | some e => .found (here ++ [name]) e) := by
  have hshort : ¬ nameLimit < Utf8.size name := by
    have := hn.short
    omega
  rw [stretch_name d purpose here hn.toIsProper, if_neg (by simp), if_neg hshort]
  cases he : d.get? (here ++ [name]) with
  | none => simp
  | some e =>
    cases e with
    | file content => simp
    | directory => rfl
    | link t => exact absurd he (hl _ _)

theorem WellFormed.stretch_join (hw : d.WellFormed) (purpose : Purpose) {a name : Text}
    (hn : Path.IsName name) (hd : d.get? (d.spelled a) = some .directory) :
    d.stretch purpose (startOf d.workingDirectory (Path.join a name))
      (Path.segments (Path.join a name)) = d.stretch purpose (d.spelled a) [name] := by
  obtain ⟨up, names, hc, hnames, -, hf⟩ :=
    Path.exists_shortens (!Path.isAbsolute a) fun s => Path.noSlash_of_mem_segments (p := a)
  have hspelled : d.spelled a = Path.follow (startOf d.workingDirectory a)
      (List.replicate up Path.dotdot) ++ names :=
    hf _ fun h => if_pos (by simpa using h)
  have hstart : startOf d.workingDirectory (Path.join a name) = startOf d.workingDirectory a := by
    simp only [startOf, Path.isAbsolute_join a hn]
  have hbody : d.stretch purpose (startOf d.workingDirectory a)
      (Path.collapse (!Path.isAbsolute a) (Path.segments a) ++ [name]) =
        d.stretch purpose (d.spelled a) [name] := by
    rw [hspelled] at hd ⊢
    rw [hc, List.append_assoc, stretch_ups]
    exact hw.stretch_names purpose (fun s hs => (hnames s hs).1) hd (by simp [hn.ne_nil])
  rw [hstart, Path.segments_join a hn]
  split
  · rw [List.singleton_append, stretch_stay _ _ _ (.inl rfl), hbody]
  · rw [List.nil_append, hbody]

/-- The path of a name in a directory leads to the entry of this name, if it is not too long. -/
theorem LinkFree.locate_join (hl : d.LinkFree) (hw : d.WellFormed) (purpose : Purpose)
    {a name : Text} (hn : IsEntryName name)
    (hd : d.get? (d.spelled a) = some .directory) :
    d.locate purpose (Path.join a name) =
      if pathLimit ≤ Utf8.size (Path.join a name) then .failed .nameTooLong
      else match d.get? (d.spelled a ++ [name]) with
        | none => .free (d.spelled a ++ [name])
        | some e => .found (d.spelled a ++ [name]) e := by
  rw [locate, if_neg (Path.join_ne_nil a hn.toIsName)]
  split
  · rfl
  refine walk_of_stretch ?_ linkLimit
  rw [hw.stretch_join purpose hn.toIsName hd, stretch_last purpose _ hn hl]

theorem hasZero_join {a name : Text} (hn : IsEntryName name)
    (hz : hasZero a = false) : hasZero (Path.join a name) = false := by
  rw [hasZero_eq_false_iff] at hz ⊢
  intro h
  rcases Path.mem_join hn.toIsName h with h | h | h | h
  · exact hz h
  · exact hn.noZero h
  · exact absurd h (by decide)
  · exact absurd h (by decide)

/-- A path without zero characters that spells a directory of the disk. -/
structure IsDirectory (d : Disk) (p : Text) : Prop where
  ne_nil : p ≠ []
  noZero : hasZero p = false
  directory : d.get? (d.spelled p) = some .directory

theorem IsDirectory.read_join {a name : Text} {content : Bytes} (ha : d.IsDirectory a)
    (hw : d.WellFormed) (hl : d.LinkFree)
    (hf : d.get? (d.spelled a ++ [name]) = some (.file content)) :
    d.read (Path.join a name) = if pathLimit ≤ Utf8.size (Path.join a name) then
      .error (.refused .nameTooLong .openFile (Path.join a name)) else .ok content := by
  have hn := hw.named _ _ _ hf
  rw [read, hasZero_join hn ha.noZero, hl.locate_join hw .look hn ha.directory,
    hf]
  by_cases h : pathLimit ≤ Utf8.size (Path.join a name) <;> simp [h]

/-- A short path to a name that no directory has can be written. -/
theorem IsDirectory.write_join_eq_ok {a name : Text} (ha : d.IsDirectory a) (hw : d.WellFormed)
    (hl : d.LinkFree) (hn : IsEntryName name) (hshort : Utf8.size (Path.join a name) < pathLimit)
    (hd : d.get? (d.spelled a ++ [name]) ≠ some .directory) (content : Bytes) :
    d.write (Path.join a name) content = .ok (d.put (d.spelled a ++ [name]) (.file content)) := by
  rw [write, hasZero_join hn ha.noZero,
    hl.locate_join hw .write hn ha.directory, if_neg (Nat.not_le.mpr hshort)]
  cases he : d.get? (d.spelled a ++ [name]) with
  | none => simp
  | some e =>
    cases e with
    | file old => simp
    | directory => exact absurd he hd
    | link t => exact absurd he (hl _ _)

/-- A write to a name in a directory puts the file there or is refused when the path is opened. -/
theorem IsDirectory.write_join {a name : Text} (ha : d.IsDirectory a) (hw : d.WellFormed)
    (hl : d.LinkFree) (hn : IsEntryName name) (content : Bytes) :
    (∃ e, d.write (Path.join a name) content =
      .error (.refused e .openFile (Path.join a name))) ∨
    Utf8.size (Path.join a name) < pathLimit ∧
      d.get? (d.spelled a ++ [name]) ≠ some .directory ∧
      d.write (Path.join a name) content = .ok (d.put (d.spelled a ++ [name]) (.file content)) := by
  have hz := hasZero_join hn ha.noZero
  have hlocate := hl.locate_join hw .write hn ha.directory
  by_cases hlong : pathLimit ≤ Utf8.size (Path.join a name)
  · rw [if_pos hlong] at hlocate
    exact .inl ⟨.nameTooLong, by simp [write, hz, hlocate]⟩
  by_cases hd : d.get? (d.spelled a ++ [name]) = some .directory
  · rw [if_neg hlong, hd] at hlocate
    exact .inl ⟨.isDirectory, by simp [write, hz, hlocate]⟩
  have hshort := Nat.not_le.mp hlong
  exact .inr ⟨hshort, hd, ha.write_join_eq_ok hw hl hn hshort hd content⟩

theorem LinkFree.eq_spelled (hl : d.LinkFree) {p : Text} {l : Location} (h : d.Denotes p l) :
    p ≠ [] ∧ l = d.spelled p :=
  hl.locate_location (by rw [h.2]; rfl)

/-- A listing holds the entries of the directory that the path spells. -/
theorem LinkFree.list_eq (hl : d.LinkFree) (hw : d.WellFormed) {p : Text}
    {entries : List (Text × Entry)} (h : d.list p = .ok entries) :
    d.IsDirectory p ∧ entries = d.children (d.spelled p) := by
  obtain ⟨l, hd, he⟩ := list_eq_ok_iff.mp h
  obtain ⟨hne, rfl⟩ := hl.eq_spelled hd
  exact ⟨⟨hne, hd.1, hd.get? hw⟩, he⟩

theorem children_nodup (d : Disk) (l : Location) : ((d.children l).map Prod.fst).Nodup := by
  have hkeys : d.toList.Pairwise fun a b => a.1 ≠ b.1 :=
    Std.ExtTreeMap.distinct_keys_toList.imp fun h he => h (by simp [he])
  rw [children, List.Nodup, List.pairwise_map, List.pairwise_filterMap]
  refine hkeys.imp ?_
  rintro ⟨k, e⟩ ⟨k', e'⟩ hne f hf f' hf' hff
  dsimp only at hf hf'
  split at hf
  · rename_i name ha
    split at hf'
    · rename_i name' ha'
      cases hf
      cases hf'
      obtain rfl : name = name' := hff
      exact hne ((after?_eq_some_iff.mp ha).trans (after?_eq_some_iff.mp ha').symm)
    · simp at hf'
  · simp at hf

/-- The names of a listing are legal, and no name is listed twice. -/
theorem WellFormed.list_names (hw : d.WellFormed) {p : Text} {entries : List (Text × Entry)}
    (h : d.list p = .ok entries) :
    (∀ e ∈ entries, IsEntryName e.1) ∧ (entries.map Prod.fst).Nodup := by
  obtain ⟨l, -, rfl⟩ := list_eq_ok_iff.mp h
  exact ⟨fun e he => hw.named _ _ _ (mem_children_iff.mp he), children_nodup d l⟩

/-- A path spells a location that is passed on the way along another path. -/
def OnTheWay (d : Disk) (p : Text) (l : Location) : Prop :=
  ∃ front behind, Path.segments p = front ++ behind ∧
    l = Path.follow (startOf d.workingDirectory p) front

theorem IsFront.onTheWay {p q : Text} (h : IsFront p q) (hq : q ≠ []) :
    d.OnTheWay p (d.spelled q) := by
  obtain ⟨rest, rfl, hr⟩ := h
  have hstart : startOf d.workingDirectory (q ++ rest) = startOf d.workingDirectory q := by
    simp only [startOf, Path.isAbsolute_append rest hq]
  cases rest with
  | nil => exact ⟨Path.segments q, [], by simp, by rw [hstart]; rfl⟩
  | cons c rest =>
    obtain rfl : c = '/' := by simpa using hr
    exact ⟨Path.segments q, Path.segments rest, Path.segments_append q rest, by rw [hstart]; rfl⟩

/-- Without links, directories are made on the way along the path only. -/
theorem LinkFree.ensureDirectory_onTheWay (hl : d.LinkFree) (hw : d.WellFormed) (p : Text) :
    GrowsTo (d.OnTheWay p) d (d.ensureDirectory p).1 := by
  refine (ensureDirectory_growsTo hw p fun q hq d' l hg hfree => ?_).2
  obtain ⟨hne, rfl⟩ := (hg.linkFree hl).locate_location (l := l) (by rw [hfree]; rfl)
  rw [hg.spelled]
  exact hq.onTheWay hne

/-- Without links, a path where the directories were made spells a directory. -/
theorem LinkFree.isDirectory_of_ensure (hl : d.LinkFree) (hw : d.WellFormed) {p : Text}
    (h : (d.ensureDirectory p).2 = .ok ()) : (d.ensureDirectory p).1.IsDirectory p := by
  have hg := ensureDirectory_grows hw p
  obtain ⟨hz, d', ⟨hw', hg'⟩, hlast⟩ := ensureDirectory_eq_ok hw h
  have hl' := hg'.linkFree hl
  rcases hlast with hmake | ⟨rfl, l, hlook⟩
  · obtain ⟨l, hfree, he⟩ := makeDirectory_eq_ok_iff.mp hmake
    obtain ⟨hne, rfl⟩ := hl'.locate_location (l := l) (by rw [hfree]; rfl)
    have hf := locate_fits hw' .make hz
    rw [hfree] at hf
    obtain ⟨parent, name, hp, -, -, -⟩ := hf
    refine ⟨hne, hz, ?_⟩
    rw [he, spelled_put, hp, get?_put_self]
  · obtain ⟨hne, rfl⟩ := hl'.locate_location (l := l) (by rw [hlook]; rfl)
    have hf := locate_fits hw' .look hz
    rw [hlook] at hf
    exact ⟨hne, hz, hf⟩

end Disk
end NodeReshape
