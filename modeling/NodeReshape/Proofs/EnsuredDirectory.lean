import NodeReshape.Proofs.DirectoryLookup

/-!
# A directory that was made

A path where the directories were made leads to a directory, and where one is found nothing is made.
So directories are made once: the next time the disk stays as it is. Without links this is so for
paths on which not all directories could be made, too, since a path along which a directory can be
made or found has a front where this is so already.
-/
namespace NodeReshape

namespace Path

theorem fronts_concat (p : Text) (c : Char) :
    fronts (p ++ [c]) = fronts p ++ if c = '/' then [p] else [] := by
  induction p with
  | nil => by_cases hc : c = '/' <;> simp [fronts, hc]
  | cons a p ih =>
    rw [List.cons_append, fronts, fronts, ih, List.map_append, List.append_assoc]
    by_cases hc : c = '/' <;> simp [hc]

/-- The longest front of a path lacks its last segment, and the other fronts are its own. -/
theorem fronts_reverse_cons {p q : Text} {rest : List Text}
    (h : (fronts p).reverse = q :: rest) :
    rest = (fronts q).reverse ∧ ∃ s, '/' ∉ s ∧ p = q ++ '/' :: s := by
  induction p using List.reverseRecOn with
  | nil => simp [fronts] at h
  | append_singleton p c ih =>
    rw [fronts_concat] at h
    by_cases hc : c = '/'
    · subst hc
      obtain ⟨rfl, rfl⟩ := List.cons.inj (by simpa using h)
      exact ⟨rfl, [], by simp, rfl⟩
    · obtain ⟨hrest, s, hs, rfl⟩ := ih (by simpa [hc] using h)
      exact ⟨hrest, s ++ [c], by simp [hs, Ne.symm hc], by simp⟩

end Path

namespace Disk

variable {d : Disk} {p : Text}

theorem stretch_of_all_nil {purpose : Purpose} {rest : List Text} (h : ∀ s ∈ rest, s = [])
    (here : Location) : d.stretch purpose here rest = .arrived (.found here .directory) := by
  induction rest with
  | nil => rfl
  | cons s rest ih =>
    rw [stretch_stay _ _ _ (.inl (h s List.mem_cons_self))]
    exact ih fun t ht => h t (List.mem_cons_of_mem _ ht)

/-- A place that is free to make an entry is one where a look finds the directory made there. -/
theorem stretch_put (hw : d.WellFormed) {l : Location} (hl : d.get? l = none) (here : Location)
    (names : List Text) : match d.stretch .make here names with
      | .arrived place => place = .free l →
        (d.put l .directory).stretch .look here names = .arrived (.found l .directory)
      | .atLink directory target rest =>
        (d.put l .directory).stretch .look here names = .atLink directory target rest := by
  have hkeep : ∀ {k e}, d.get? k = some e → (d.put l .directory).get? k = some e := by
    intro k e hk
    rw [get?_put_of_ne d _ (by rintro rfl; simp [hl] at hk), hk]
  induction here, names using stretch_induction with
  | arrived here => simp
  | stay here name rest hskip ih => rwa [stretch_stay _ _ _ hskip]
  | up here rest ih => rwa [stretch_up]
  | failed here name rest e => simp
  | free here name rest hn hs hnone hr =>
    rintro ⟨⟩
    rw [stretch_name _ _ _ hn, if_neg (by simp), if_neg (by omega), get?_put_self]
    exact stretch_of_all_nil hr _
  | missing here name rest _ _ => simp
  | enter here name rest hn hd ih =>
    rw [stretch_name _ _ _ hn, if_neg (by simp), if_neg (hw.not_long hd), hkeep hd]
    exact ih
  | found here name rest e _ _ _ _ => simp
  | atLink here name rest target hn ht =>
    rw [stretch_name _ _ _ hn, if_neg (by simp), if_neg (hw.not_long ht), hkeep ht]
    exact if_neg (by simp)

theorem walk_put (hw : d.WellFormed) {l : Location} (hl : d.get? l = none) {n : ℕ}
    {here : Location} {names : List Text} (h : d.walk .make n here names = .free l) :
    (d.put l .directory).walk .look n here names = .found l .directory := by
  fun_induction walk d .make n here names with
  | case1 here names place hs =>
    have hput := stretch_put hw hl here names
    rw [hs] at hput
    exact walk_of_stretch (hput h) 0
  | case2 here names directory target rest hs => simp at h
  | case3 n here names place hs =>
    have hput := stretch_put hw hl here names
    rw [hs] at hput
    exact walk_of_stretch (hput h) (n + 1)
  | case4 n here names directory target rest hs ih =>
    have hput := stretch_put hw hl here names
    rw [hs] at hput
    rw [walk, hput]
    exact ih h

theorem locate_put (hw : d.WellFormed) {p : Text} {l : Location} (hl : d.get? l = none)
    (h : d.locate .make p = .free l) :
    (d.put l .directory).locate .look p = .found l .directory := by
  have hok : ∀ e, d.locate .make p ≠ .failed e := by simp [h]
  have hp := spellable_of_locate hok
  rw [locate_eq_walk .make hp] at h
  rw [locate_eq_walk .look hp]
  exact walk_put hw hl h

theorem ensure_grows (hw : d.WellFormed) (below : Bool) (p : Text) (fronts : List Text)
    (hz : ∀ q ∈ p :: fronts, hasZero q = false) : (d.ensure below p fronts).1.WellFormed ∧
      GrowsTo (fun _ => True) d (d.ensure below p fronts).1 :=
  ensure_growsTo hw below p fronts hz fun _ _ _ _ _ _ => trivial

/-- Wherever the last directory of a path is made, or was there, the path leads to it. -/
theorem denotes_of_ensured (hw : d.WellFormed) {below : Bool} {p : Text} {fronts : List Text}
    (hz : ∀ q ∈ p :: fronts, hasZero q = false) (h : (d.ensure below p fronts).2 = .ok ()) :
    ∃ l, (d.ensure below p fronts).1.Denotes p l := by
  have hzp := hz p List.mem_cons_self
  obtain ⟨d', hd, hlast⟩ := ensure_eq_ok h
  have hw' : d'.WellFormed := by
    rcases hd with rfl | ⟨q, rest, rfl, rfl⟩
    · exact hw
    · exact (ensure_grows hw true q rest fun r hr => hz r (List.mem_cons_of_mem _ hr)).1
  rcases hlast with hmake | ⟨rfl, l, hlook⟩
  · obtain ⟨l, hfree, he⟩ := makeDirectory_eq_ok_iff.mp hmake
    have hfits := locate_fits hw' .make hzp
    rw [hfree] at hfits
    obtain ⟨-, -, -, -, -, hnone⟩ := hfits
    rw [he]
    exact ⟨l, hzp, locate_put hw' hnone hfree⟩
  · exact ⟨l, hzp, hlook⟩

theorem ensureDirectory_eq (hz : hasZero p = false) : d.ensureDirectory p =
    ((d.ensure false p (Path.fronts p).reverse).1,
      (d.ensure false p (Path.fronts p).reverse).2.mapError fun e =>
        .refused e.1 .makeDirectory e.2) := by
  rw [ensureDirectory, if_neg (by simp [hz])]

/-- A path where the directories were made leads to a directory. -/
theorem denotes_of_ensure (hw : d.WellFormed) {p : Text}
    (h : (d.ensureDirectory p).2 = .ok ()) : ∃ l, (d.ensureDirectory p).1.Denotes p l := by
  have hz := (ensureDirectory_eq_ok hw h).1
  rw [ensureDirectory_eq hz] at h ⊢
  refine denotes_of_ensured hw (fun q hq => (isFront_of_mem hq).hasZero hz) ?_
  cases he : (d.ensure false p (Path.fronts p).reverse).2 with
  | ok u => rfl
  | error e => simp [he, Except.mapError] at h

section Found

variable {here l : Location} {names : List Text}

/-- Where a look comes to a directory, there is an entry already that prevents making one. -/
theorem stretch_make (hw : d.WellFormed) (here : Location) (names : List Text) :
    match d.stretch .look here names with
    | .arrived place => place = .found l .directory →
      d.stretch .make here names = .arrived (.found l .directory)
    | .atLink directory target rest => d.stretch .make here names = .atLink directory target rest ∨
      ∃ k e, d.stretch .make here names = .arrived (.found k e) := by
  induction here, names using stretch_induction with
  | arrived here =>
    rintro ⟨⟩
    rfl
  | stay here name rest hskip ih => rwa [stretch_stay _ _ _ hskip]
  | up here rest ih => rwa [stretch_up]
  | failed here name rest e => simp
  | free here name rest _ _ _ _ => simp
  | missing here name rest _ _ => simp
  | enter here name rest hn hd ih =>
    rw [stretch_name _ .make _ hn, if_neg (by simp), if_neg (hw.not_long hd), hd]
    exact ih
  | found here name rest e _ _ he _ =>
    rintro ⟨⟩
    exact absurd rfl he
  | atLink here name rest target hn ht =>
    rw [stretch_name _ .make _ hn, if_neg (by simp), if_neg (hw.not_long ht), ht]
    dsimp only
    split
    · exact .inr ⟨_, _, rfl⟩
    · exact .inl rfl

theorem walk_make (hw : d.WellFormed) {n : ℕ} (h : d.walk .look n here names = .found l .directory) :
    ∃ k e, d.walk .make n here names = .found k e := by
  fun_induction walk d .look n here names with
  | case1 here names place hs =>
    have hmake := stretch_make (l := l) hw here names
    rw [hs] at hmake
    exact ⟨_, _, walk_of_stretch (hmake h) 0⟩
  | case2 here names directory target rest hs => simp at h
  | case3 n here names place hs =>
    have hmake := stretch_make (l := l) hw here names
    rw [hs] at hmake
    exact ⟨_, _, walk_of_stretch (hmake h) (n + 1)⟩
  | case4 n here names directory target rest hs ih =>
    have hmake := stretch_make (l := l) hw here names
    rw [hs] at hmake
    rcases hmake with hmake | ⟨k, e, hmake⟩
    · rw [walk, hmake]
      exact ih h
    · exact ⟨k, e, walk_of_stretch hmake (n + 1)⟩

/-- Where a path leads to a directory, none is made. -/
theorem Denotes.ensure_eq (h : d.Denotes p l) (hw : d.WellFormed) (below : Bool)
    (fronts : List Text) : d.ensure below p fronts = (d, .ok ()) := by
  have hok : ∀ e, d.locate .look p ≠ .failed e := by simp [h.2]
  have hp := spellable_of_locate hok
  have hlook := h.2
  rw [locate_eq_walk .look hp] at hlook
  obtain ⟨k, e, hmake⟩ := walk_make hw hlook
  have hexists : d.makeDirectory p = .error .alreadyExists := by
    rw [makeDirectory, locate_eq_walk .make hp, hmake]
  have hsettle : d.settle below p .alreadyExists = .ok () := by
    simp [settle, leadsToDirectory, h.2]
  rw [ensure_of_error hexists (.inr (by simp)), hsettle]
  rfl

theorem Denotes.ensureDirectory_eq (h : d.Denotes p l) (hw : d.WellFormed) :
    d.ensureDirectory p = (d, .ok ()) := by
  rw [Disk.ensureDirectory_eq h.1, h.ensure_eq hw]
  rfl

end Found

section Front

variable {q s : Text} {l : Location}

theorem spellable_front (hp : q ++ '/' :: s ≠ [] ∧ Utf8.size (q ++ '/' :: s) < pathLimit)
    (hq : q ≠ []) : q ≠ [] ∧ Utf8.size q < pathLimit := by
  have hsize : Utf8.size q ≤ Utf8.size (q ++ '/' :: s) := by
    simp [Utf8.size, Utf8.encode]
  exact ⟨hq, by omega⟩

/-- A path to a directory passes one where its last slash stands. -/
theorem Denotes.front (h : d.Denotes (q ++ '/' :: s) l) (hw : d.WellFormed) (hq : q ≠ []) :
    ∃ m, d.Denotes q m := by
  have hok : ∀ e, d.locate .look (q ++ '/' :: s) ≠ .failed e := by simp [h.2]
  have hp := spellable_of_locate hok
  have hlook := h.2
  rw [locate_eq_walk .look hp, Path.segments_append] at hlook
  obtain ⟨k, hk, hl⟩ := exists_leads hlook
  obtain ⟨i, j, m, rfl, hfront, -⟩ := hl.split
  have hstart : startOf d.workingDirectory (q ++ '/' :: s) = startOf d.workingDirectory q := by
    simp only [startOf, Path.isAbsolute_append _ hq]
  have hgoes : GoesOn .look ([] : List Text) := .inl rfl
  have hwalk := hfront.walk hw (linkLimit - i) hgoes
  have harrived : d.walk .look (linkLimit - i) m [] = .found m .directory := walk_of_stretch rfl _
  rw [Nat.sub_add_cancel (by omega), List.append_nil, hstart, harrived] at hwalk
  refine ⟨m, IsFront.hasZero ⟨_, rfl, .inr rfl⟩ h.1, ?_⟩
  rw [locate_eq_walk .look (spellable_front hp hq), hwalk]

/-- Without links, a slash behind a path to make an entry changes nothing. -/
theorem LinkFree.stretch_make_slash (hl : d.LinkFree) (here : Location) (names : List Text) :
    d.stretch .make here (names ++ [[]]) = d.stretch .make here names := by
  induction names generalizing here with
  | nil => rfl
  | cons name rest ih =>
    rcases Path.segment_cases name with hskip | rfl | hn
    · rw [List.cons_append, stretch_stay _ _ _ hskip, stretch_stay _ _ _ hskip, ih]
    · rw [List.cons_append, stretch_up, stretch_up, ih]
    · rw [List.cons_append, stretch_name _ _ _ hn, stretch_name _ _ _ hn, ih]
      cases he : d.get? (here ++ [name]) with
      | none => simp
      | some e =>
        cases e with
        | file content => by_cases hrest : rest = [] <;> simp [hrest]
        | directory => simp
        | link t => exact absurd he (hl _ _)

/-- A name is free in a directory only. -/
theorem stretch_make_free (hs : s ≠ []) (here : Location) (names : List Text)
    (h : d.stretch .make here (names ++ [s]) = .arrived (.free l)) :
    ∃ m, d.stretch .look here names = .arrived (.found m .directory) := by
  induction names generalizing here with
  | nil => exact ⟨here, rfl⟩
  | cons name rest ih =>
    rcases Path.segment_cases name with hskip | rfl | hn
    · rw [List.cons_append, stretch_stay _ _ _ hskip] at h
      rw [stretch_stay _ _ _ hskip]
      exact ih here h
    · rw [List.cons_append, stretch_up] at h
      rw [stretch_up]
      exact ih here.dropLast h
    · have hlast : ¬ (rest ++ [s]).all (fun s => decide (s = [])) = true := by simp [hs]
      rw [List.cons_append, stretch_name _ _ _ hn] at h
      rw [stretch_name _ _ _ hn]
      by_cases hlong : nameLimit < Utf8.size name
      · simp [hlong] at h
      cases he : d.get? (here ++ [name]) with
      | none => simp [hlong, he, hlast] at h
      | some e =>
        cases e with
        | file content => simp [hlong, he, hlast] at h
        | link t => simp [hlong, he, hlast] at h
        | directory =>
          simp only [hlong, he, reduceCtorEq, false_and, if_false] at h ⊢
          exact ih (here ++ [name]) h

/-- A directory can be made at the path, or one is there. -/
def Makeable (d : Disk) (p : Text) : Prop :=
  (∃ made, d.makeDirectory p = .ok made) ∨ ∃ l, d.Denotes p l

/-- Without links, a directory is made or found where there is one in front of the last slash, or
where one can be made there. -/
theorem LinkFree.makeable_front (hl : d.LinkFree) (hw : d.WellFormed) (hq : q ≠ [])
    (hz : hasZero (q ++ '/' :: s) = false) (hs : '/' ∉ s) (h : d.Makeable (q ++ '/' :: s)) :
    d.Makeable q := by
  rcases h with ⟨made, hmake⟩ | ⟨l, hfound⟩
  · obtain ⟨l, hfree, -⟩ := makeDirectory_eq_ok_iff.mp hmake
    have hok : ∀ e, d.locate .make (q ++ '/' :: s) ≠ .failed e := by simp [hfree]
    have hp := spellable_of_locate hok
    have hq' := spellable_front hp hq
    have hstart : startOf d.workingDirectory (q ++ '/' :: s) = startOf d.workingDirectory q := by
      simp only [startOf, Path.isAbsolute_append _ hq]
    rw [locate_eq_walk .make hp, hstart, Path.segments_append, Path.segments_of_noSlash hs] at hfree
    obtain ⟨place, hplace⟩ := hl.exists_stretch .make (startOf d.workingDirectory q)
      (Path.segments q ++ [s])
    rw [walk_of_stretch hplace] at hfree
    subst hfree
    by_cases hnil : s = []
    · rw [hnil, hl.stretch_make_slash] at hplace
      refine .inl ⟨_, makeDirectory_eq_ok_iff.mpr ⟨l, ?_, rfl⟩⟩
      rw [locate_eq_walk .make hq', walk_of_stretch hplace]
    · obtain ⟨m, hm⟩ := stretch_make_free hnil _ _ hplace
      refine .inr ⟨m, IsFront.hasZero ⟨_, rfl, .inr rfl⟩ hz, ?_⟩
      rw [locate_eq_walk .look hq', walk_of_stretch hm]
  · exact .inr (hfound.front hw hq)

theorem Makeable.ensure_ne_error (h : d.Makeable q) (hw : d.WellFormed) {below : Bool}
    {fronts : List Text} (e : SystemError × Text) : (d.ensure below q fronts).2 ≠ .error e := by
  rcases h with ⟨made, hmake⟩ | ⟨l, hfound⟩
  · simp [ensure_of_ok hmake]
  · simp [hfound.ensure_eq hw]

theorem ensure_of_front_ok {made : Disk} {below : Bool} {p : Text} {rest : List Text}
    (h : d.makeDirectory p = .error .noEntry) (hfront : d.ensure true q rest = (made, .ok ())) :
    d.ensure below p (q :: rest) = made.ensure below p [] := by
  rw [ensure_of_noEntry h, hfront]

theorem ensure_of_front_error {made : Disk} {below : Bool} {p : Text} {rest : List Text}
    {e : SystemError × Text} (h : d.makeDirectory p = .error .noEntry)
    (hfront : d.ensure true q rest = (made, .error e)) :
    d.ensure below p (q :: rest) = (made, .error e) := by
  rw [ensure_of_noEntry h, hfront]

/-- Where the front is a directory, nothing is made on the way. -/
theorem Denotes.ensure_cons (h : d.Denotes q l) (hw : d.WellFormed) (below : Bool) (p : Text)
    (rest : List Text) : d.ensure below p (q :: rest) = d.ensure below p [] := by
  cases hmake : d.makeDirectory p with
  | ok made => rw [ensure_of_ok hmake, ensure_of_ok hmake]
  | error e =>
    by_cases he : e = .noEntry
    · rw [ensure_of_front_ok (he ▸ hmake) (h.ensure_eq hw _ _)]
    · rw [ensure_of_error hmake (.inr he), ensure_of_error hmake (.inl rfl)]

theorem ensure_last_of_error {below : Bool} {p : Text} {e : SystemError × Text}
    (h : (d.ensure below p []).2 = .error e) : (d.ensure below p []).1 = d := by
  cases hmake : d.makeDirectory p with
  | ok made => simp [ensure_of_ok hmake] at h
  | error x => rw [ensure_of_error hmake (.inl rfl)]

/-- Without links, nothing is made behind a front that is no directory and cannot be made. -/
theorem LinkFree.ensure_of_front (hl : d.LinkFree) (hw : d.WellFormed) (hq : q ≠ [])
    (hz : hasZero (q ++ '/' :: s) = false) (hs : '/' ∉ s) (below : Bool) {rest : List Text}
    {e : SystemError × Text} (h : d.ensure true q rest = (d, .error e)) :
    ∃ e', d.ensure below (q ++ '/' :: s) (q :: rest) = (d, .error e') := by
  have hnot : ¬ d.Makeable (q ++ '/' :: s) := fun hm =>
    (hl.makeable_front hw hq hz hs hm).ensure_ne_error hw e (by rw [h])
  cases hmake : d.makeDirectory (q ++ '/' :: s) with
  | ok made => exact absurd (.inl ⟨made, hmake⟩) hnot
  | error x =>
    by_cases hx : x = .noEntry
    · exact ⟨e, ensure_of_front_error (hx ▸ hmake) h⟩
    · rw [ensure_of_error hmake (.inr hx)]
      cases hsettle : d.settle below (q ++ '/' :: s) x with
      | ok u =>
        obtain ⟨l, hlook⟩ := settle_eq_ok hsettle
        exact absurd (.inr ⟨l, hz, hlook⟩) hnot
      | error y => exact ⟨_, rfl⟩

/-- Where nothing was made, the second time is the first time. -/
theorem ensure_again_of_unchanged {below : Bool} {p : Text} {fronts : List Text}
    {e : SystemError × Text} (hd : (d.ensure below p fronts).1 = d)
    (h : (d.ensure below p fronts).2 = .error e) : ∃ e',
      (d.ensure below p fronts).1.ensure below p fronts =
        ((d.ensure below p fronts).1, .error e') := by
  rw [hd]
  exact ⟨e, Prod.ext hd h⟩

/-- What could not be made without links cannot be made the next time, and nothing more is made on
the way to it. -/
theorem LinkFree.ensure_again (hl : d.LinkFree) (hw : d.WellFormed) {below : Bool} {p : Text}
    {fronts : List Text} (hf : (Path.fronts p).reverse = fronts) (hz : hasZero p = false)
    {e : SystemError × Text} (h : (d.ensure below p fronts).2 = .error e) :
    ∃ e', (d.ensure below p fronts).1.ensure below p fronts =
      ((d.ensure below p fronts).1, .error e') := by
  induction fronts generalizing below p e with
  | nil => exact ensure_again_of_unchanged (ensure_last_of_error h) h
  | cons q rest ih =>
    obtain ⟨hrest, s, hs, rfl⟩ := Path.fronts_reverse_cons hf
    cases hmake : d.makeDirectory (q ++ '/' :: s) with
    | ok made => simp [ensure_of_ok hmake] at h
    | error x =>
      by_cases hx : x = .noEntry
      · have hzq : hasZero q = false := IsFront.hasZero ⟨_, rfl, .inr rfl⟩ hz
        have hzs : ∀ r ∈ q :: rest, hasZero r = false := fun r hr =>
          (isFront_of_mem (p := q) (by rwa [← hrest])).hasZero hzq
        obtain ⟨hw', hg⟩ := ensure_grows hw true q rest hzs
        have hl' := hg.linkFree hl
        subst hx
        rcases hfront : d.ensure true q rest with ⟨d', e' | u⟩
        · have hstep : d.ensure below (q ++ '/' :: s) (q :: rest) = (d', .error e') :=
            ensure_of_front_error hmake hfront
          rw [hfront] at hw' hl'
          by_cases hq : q = []
          · -- The empty path is never made.
            obtain rfl : rest = [] := by simpa [hq, Path.fronts] using hrest
            have hd := ensure_last_of_error (d := d) (by rw [hfront])
            rw [hfront] at hd
            exact ensure_again_of_unchanged (by rw [hstep]; exact hd) h
          · obtain ⟨e'', hagain⟩ := ih hrest.symm hzq (by rw [hfront])
            rw [hfront] at hagain
            rw [hstep]
            exact hl'.ensure_of_front hw' hq hz hs below hagain
        · obtain ⟨m, hm⟩ := denotes_of_ensured hw hzs (by rw [hfront])
          rw [hfront] at hw' hm
          rw [ensure_of_front_ok hmake hfront] at h ⊢
          have hd := ensure_last_of_error h
          rw [hd, hm.ensure_cons hw']
          exact ⟨e, Prod.ext hd h⟩
      · exact ensure_again_of_unchanged (by rw [ensure_of_error hmake (.inr hx)]) h

/-- Making the directories of a path once more changes nothing without links, and succeeds or fails
as the first time. -/
theorem LinkFree.ensureDirectory_again (hl : d.LinkFree) (hw : d.WellFormed) (p : Text) :
    ((d.ensureDirectory p).1.ensureDirectory p).1 = (d.ensureDirectory p).1 ∧
    (((d.ensureDirectory p).1.ensureDirectory p).2 = .ok () ↔
      (d.ensureDirectory p).2 = .ok ()) := by
  have hw' := (ensureDirectory_grows hw p).1
  by_cases hok : (d.ensureDirectory p).2 = .ok ()
  · obtain ⟨l, hdir⟩ := denotes_of_ensure hw hok
    rw [hdir.ensureDirectory_eq hw', hok]
    exact ⟨rfl, Iff.rfl⟩
  cases hz : hasZero p with
  | true =>
    have hzero (d : Disk) : d.ensureDirectory p = (d, .error (.zeroInPath p)) := by
      rw [ensureDirectory, if_pos hz]
    simp [hzero]
  | false =>
    rw [ensureDirectory_eq hz] at hok ⊢
    cases he : (d.ensure false p (Path.fronts p).reverse).2 with
    | ok u => exact absurd (by rw [he]; rfl) hok
    | error e =>
      obtain ⟨e', hagain⟩ := hl.ensure_again hw rfl hz he
      rw [ensureDirectory_eq hz]
      simp [hagain, he, Except.mapError]

end Front

end Disk
end NodeReshape
