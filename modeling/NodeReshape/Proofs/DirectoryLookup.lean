import NodeReshape.Proofs.LinkFreeDisk

/-!
# Looking up a name behind a directory path

A name is joined to a directory path as text, and the joined path is shortened before anything is
looked up. A step up that is dropped together with the name in front of it is a step the walk would
have made behind that name. Both lead back to the same directory unless the name is a link to a
directory elsewhere. Where no such link is left by a step up, the joined path leads to the name in
the directory of the path.
-/
namespace NodeReshape.Disk

variable {d d' : Disk}

/-- The segments lead from one directory to another, past so many links. -/
inductive Leads (d : Disk) : ℕ → Location → List Text → Location → Prop
  | arrive {here} : Leads d 0 here [] here
  | stay {k here name rest l} : name = [] ∨ name = Path.dot → Leads d k here rest l →
    Leads d k here (name :: rest) l
  | up {k here rest l} : Leads d k here.dropLast rest l → Leads d k here (Path.dotdot :: rest) l
  | enter {k here name rest l} : Path.IsProper name →
    d.get? (here ++ [name]) = some .directory → Leads d k (here ++ [name]) rest l →
    Leads d k here (name :: rest) l
  | follow {k here name rest l target} : Path.IsProper name →
    d.get? (here ++ [name]) = some (.link target) →
    Leads d k (startOf here target) (Path.segments target ++ rest) l →
    Leads d (k + 1) here (name :: rest) l

section Walk

variable {purpose : Purpose} {here l m : Location} {name : Text} {names rest : List Text}

theorem walk_stay (n : ℕ) (h : name = [] ∨ name = Path.dot) :
    d.walk purpose n here (name :: rest) = d.walk purpose n here rest := by
  cases n <;> simp only [walk, stretch_stay d purpose here h]

theorem walk_up (n : ℕ) :
    d.walk purpose n here (Path.dotdot :: rest) = d.walk purpose n here.dropLast rest := by
  cases n <;> simp only [walk, stretch_up]

/-- A look goes on behind any segment; to write or make an entry, a walk goes on where another
segment is left. -/
def GoesOn (purpose : Purpose) (rest : List Text) : Prop := purpose = .look ∨ ¬ ∀ s ∈ rest, s = []

theorem GoesOn.append (h : GoesOn purpose rest) (names : List Text) :
    GoesOn purpose (names ++ rest) :=
  h.imp_right fun hr hall => hr fun s hs => hall s (List.mem_append_right _ hs)

theorem GoesOn.not_last (h : GoesOn purpose rest) (hp : purpose ≠ .look) :
    ¬ rest.all (fun s => decide (s = [])) = true := fun hall =>
  h.elim hp fun hr => hr (all_eq_nil_iff.mp hall)

theorem WellFormed.not_long (hw : d.WellFormed) {e : Entry}
    (he : d.get? (here ++ [name]) = some e) : ¬ nameLimit < Utf8.size name := by
  have := (hw.named _ _ _ he).short
  omega

theorem walk_enter (hw : d.WellFormed) (n : ℕ) (hn : Path.IsProper name)
    (hr : GoesOn purpose rest) (hd : d.get? (here ++ [name]) = some .directory) :
    d.walk purpose n here (name :: rest) = d.walk purpose n (here ++ [name]) rest := by
  have hs : d.stretch purpose here (name :: rest) =
      d.stretch purpose (here ++ [name]) rest := by
    rw [stretch_name d purpose here hn, if_neg fun h => hr.not_last (by simp [h.1]) h.2.1,
      if_neg (hw.not_long hd), hd]
  cases n <;> simp only [walk, hs]

theorem walk_follow (hw : d.WellFormed) (n : ℕ) (hn : Path.IsProper name)
    (hr : GoesOn purpose rest) {target : Text}
    (ht : d.get? (here ++ [name]) = some (.link target)) :
    d.walk purpose (n + 1) here (name :: rest) =
      d.walk purpose n (startOf here target) (Path.segments target ++ rest) := by
  have hs : d.stretch purpose here (name :: rest) = .atLink here target rest := by
    rw [stretch_name d purpose here hn, if_neg fun h => hr.not_last (by simp [h.1]) h.2.1,
      if_neg (hw.not_long ht), ht]
    exact if_neg fun h => hr.not_last (by simp [h.1]) h.2
  simp only [walk, hs]

theorem leads_nil {k : ℕ} : d.Leads k here [] l ↔ k = 0 ∧ l = here := by
  constructor
  · rintro ⟨⟩
    exact ⟨rfl, rfl⟩
  · rintro ⟨rfl, rfl⟩
    exact .arrive

theorem leads_stay {k : ℕ} (h : name = [] ∨ name = Path.dot) :
    d.Leads k here (name :: rest) l ↔ d.Leads k here rest l := by
  refine ⟨fun hl => ?_, fun hl => hl.stay h⟩
  cases hl with
  | stay _ hl => exact hl
  | up _ => simp [Path.dotdot, Path.dot] at h
  | enter hn _ _ => exact absurd h (by simp [hn.ne_nil, hn.ne_dot])
  | follow hn _ _ => exact absurd h (by simp [hn.ne_nil, hn.ne_dot])

theorem leads_up {k : ℕ} :
    d.Leads k here (Path.dotdot :: rest) l ↔ d.Leads k here.dropLast rest l := by
  refine ⟨fun hl => ?_, fun hl => hl.up⟩
  cases hl with
  | stay h _ => simp [Path.dotdot, Path.dot] at h
  | up hl => exact hl
  | enter hn _ _ => exact absurd rfl hn.ne_dotdot
  | follow hn _ _ => exact absurd rfl hn.ne_dotdot

/-- A walk comes to the directory where its first segments lead. -/
theorem Leads.walk (hw : d.WellFormed) {k : ℕ} (h : d.Leads k here names l) (n : ℕ)
    (hr : GoesOn purpose rest) :
    d.walk purpose (n + k) here (names ++ rest) = d.walk purpose n l rest := by
  induction h with
  | arrive => rfl
  | stay hskip _ ih => rw [List.cons_append, walk_stay _ hskip, ih]
  | up _ ih => rw [List.cons_append, walk_up, ih]
  | enter hn hd _ ih => rw [List.cons_append, walk_enter hw _ hn (hr.append _) hd, ih]
  | follow hn ht _ ih =>
    rw [List.cons_append, ← Nat.add_assoc, walk_follow hw _ hn (hr.append _) ht,
      ← List.append_assoc, ih]

/-- A walk ends alike with more links to follow, unless it has run out of them. -/
theorem walk_add {n : ℕ} (h : d.walk purpose n here names ≠ .failed .linkLoop) (k : ℕ) :
    d.walk purpose (n + k) here names = d.walk purpose n here names := by
  fun_induction walk d purpose n here names with
  | case1 here names place hs => exact walk_of_stretch hs _
  | case2 here names directory target rest hs => exact absurd rfl h
  | case3 n here names place hs => exact walk_of_stretch hs _
  | case4 n here names directory target rest hs ih =>
    rw [Nat.succ_add, walk, hs]
    exact ih h

/-- A look that has come so far leads to this directory in the end. -/
def EndsIn (d : Disk) : Stretch → ℕ → Location → Prop
  | .arrived place, k, l => k = 0 ∧ place = .found l .directory
  | .atLink directory target rest, k, l =>
    ∃ j, k = j + 1 ∧ d.Leads j (startOf directory target) (Path.segments target ++ rest) l

theorem leads_of_endsIn (here : Location) (names : List Text) :
    ∀ k l, d.EndsIn (d.stretch .look here names) k l → d.Leads k here names l := by
  induction here, names using stretch_induction with
  | arrived here =>
    rintro k l ⟨rfl, ⟨⟩⟩
    exact .arrive
  | stay here name rest hskip ih => exact fun k l hl => (ih k l hl).stay hskip
  | up here rest ih => exact fun k l hl => (ih k l hl).up
  | failed here name rest e => simp [EndsIn]
  | free here name rest _ _ _ _ => simp [EndsIn]
  | missing here name rest _ _ => simp [EndsIn]
  | enter here name rest hn hd ih => exact fun k l hl => (ih k l hl).enter hn hd
  | found here name rest e _ _ he _ =>
    rintro k l ⟨rfl, ⟨⟩⟩
    exact absurd rfl he
  | atLink here name rest target hn ht =>
    rintro k l ⟨j, rfl, hl⟩
    exact hl.follow hn ht

theorem exists_leads {n : ℕ} (h : d.walk .look n here names = .found l .directory) :
    ∃ k ≤ n, d.Leads k here names l := by
  fun_induction walk d .look n here names with
  | case1 here names place hs =>
    exact ⟨0, Nat.zero_le _, leads_of_endsIn here names 0 l (hs ▸ ⟨rfl, h⟩)⟩
  | case2 here names directory target rest hs => simp at h
  | case3 n here names place hs =>
    exact ⟨0, Nat.zero_le _, leads_of_endsIn here names 0 l (hs ▸ ⟨rfl, h⟩)⟩
  | case4 n here names directory target rest hs ih =>
    obtain ⟨k, hk, hrest⟩ := ih h
    exact ⟨k + 1, Nat.succ_le_succ hk,
      leads_of_endsIn here names (k + 1) l (hs ▸ ⟨k, rfl, hrest⟩)⟩

/-- The segments lead nowhere else than a look does that finds a directory. -/
theorem Leads.eq_of_walk (hw : d.WellFormed) {k n : ℕ} (h : d.Leads k here names l)
    (hm : d.walk .look n here names = .found m .directory) : l = m := by
  have hl : d.walk .look (n + k) here (names ++ []) = d.walk .look n l [] := h.walk hw n (.inl rfl)
  have harrived : d.walk .look n l [] = .found l .directory := walk_of_stretch rfl n
  rw [List.append_nil, walk_add (by simp [hm]), hm, harrived] at hl
  cases hl
  rfl

theorem Leads.append {j k : ℕ} (h : d.Leads j here names m) (h' : d.Leads k m rest l) :
    d.Leads (j + k) here (names ++ rest) l := by
  induction h with
  | arrive => rwa [Nat.zero_add]
  | stay hskip _ ih => exact (ih h').stay hskip
  | up _ ih => exact (ih h').up
  | enter hn hd _ ih => exact (ih h').enter hn hd
  | follow hn ht _ ih =>
    have hl := ih h'
    rw [List.append_assoc] at hl
    rw [Nat.add_right_comm]
    exact hl.follow hn ht

theorem Leads.split {k : ℕ} (h : d.Leads k here (names ++ rest) l) :
    ∃ i j m, i + j = k ∧ d.Leads i here names m ∧ d.Leads j m rest l := by
  generalize hall : names ++ rest = all at h
  induction h generalizing names with
  | arrive =>
    obtain ⟨rfl, rfl⟩ := List.append_eq_nil_iff.mp hall
    exact ⟨0, 0, _, rfl, .arrive, .arrive⟩
  | stay hskip h ih =>
    rcases List.append_eq_cons_iff.mp hall with ⟨rfl, rfl⟩ | ⟨names, rfl, rfl⟩
    · exact ⟨0, _, _, Nat.zero_add _, .arrive, h.stay hskip⟩
    · obtain ⟨i, j, m, rfl, hi, hj⟩ := ih rfl
      exact ⟨i, j, m, rfl, hi.stay hskip, hj⟩
  | up h ih =>
    rcases List.append_eq_cons_iff.mp hall with ⟨rfl, rfl⟩ | ⟨names, rfl, rfl⟩
    · exact ⟨0, _, _, Nat.zero_add _, .arrive, h.up⟩
    · obtain ⟨i, j, m, rfl, hi, hj⟩ := ih rfl
      exact ⟨i, j, m, rfl, hi.up, hj⟩
  | enter hn hd h ih =>
    rcases List.append_eq_cons_iff.mp hall with ⟨rfl, rfl⟩ | ⟨names, rfl, rfl⟩
    · exact ⟨0, _, _, Nat.zero_add _, .arrive, h.enter hn hd⟩
    · obtain ⟨i, j, m, rfl, hi, hj⟩ := ih rfl
      exact ⟨i, j, m, rfl, hi.enter hn hd, hj⟩
  | follow hn ht h ih =>
    rcases List.append_eq_cons_iff.mp hall with ⟨rfl, rfl⟩ | ⟨names, rfl, rfl⟩
    · exact ⟨0, _, _, Nat.zero_add _, .arrive, h.follow hn ht⟩
    · obtain ⟨i, j, m, rfl, hi, hj⟩ := ih (List.append_assoc ..)
      exact ⟨i + 1, j, m, Nat.add_right_comm .., hi.follow hn ht, hj⟩

theorem Leads.of_keeps (hk : Keeps d d') {k : ℕ} (h : d.Leads k here names l) :
    d'.Leads k here names l := by
  induction h with
  | arrive => exact .arrive
  | stay hskip _ ih => exact ih.stay hskip
  | up _ ih => exact ih.up
  | enter hn hd _ ih => exact ih.enter hn (hk.directory _ hd)
  | follow hn ht _ ih => exact ih.follow hn (hk.link _ _ ht)

end Walk

section Collapse

variable {above : Bool} {here l : Location} {segs : List Text}

/-- The segments shorten to a way that ends at a link, and the directory above the one where the
link leads is not the one that holds it. -/
def EndsAtLink (d : Disk) (above : Bool) (here : Location) (segs : List Text) : Prop :=
  ∃ kept last target holder inside, Path.collapse above segs = kept ++ [last] ∧
    (∃ k, d.Leads k here kept holder) ∧ d.get? (holder ++ [last]) = some (.link target) ∧
    (∃ k, d.Leads k holder [last] inside) ∧ inside.dropLast ≠ holder

/-- Without the last name, the segments lead to the directory above, unless this name is a link to a
directory elsewhere. -/
theorem Leads.collapse_back {k : ℕ} {kept : List Text} {last : Text} {inside : Location}
    (h : d.Leads k here (kept ++ [last]) inside) (hn : Path.IsName last)
    (hlink : ∀ holder target, (∃ j, d.Leads j here kept holder) →
      d.get? (holder ++ [last]) = some (.link target) →
      (∃ j, d.Leads j holder [last] inside) → inside.dropLast = holder) :
    ∃ j ≤ k, d.Leads j here kept inside.dropLast := by
  obtain ⟨i, j, holder, rfl, hkept, hlast⟩ := h.split
  have hback : inside.dropLast = holder := by
    cases hlast with
    | stay hskip _ => exact absurd hskip (by simp [hn.ne_nil, hn.ne_dot])
    | up _ => exact absurd rfl hn.ne_dotdot
    | enter _ _ hrest =>
      cases hrest
      exact List.dropLast_concat
    | follow hp ht hrest => exact hlink holder _ ⟨i, hkept⟩ ht ⟨_, hrest.follow hp ht⟩
  rw [hback]
  exact ⟨i, Nat.le_add_right i j, hkept⟩

/-- Shortened segments lead where the segments lead, past no more links, unless a step up stands
behind a link to a directory elsewhere. -/
theorem Leads.collapse (hs : ∀ s ∈ segs, '/' ∉ s) (hh : above = false → here = [])
    (hout : ∀ front behind, segs = front ++ Path.dotdot :: behind → ¬ d.EndsAtLink above here front)
    {k : ℕ} (h : d.Leads k here segs l) :
    ∃ j ≤ k, d.Leads j here (Path.collapse above segs) l := by
  induction segs using List.reverseRecOn generalizing k l with
  | nil => exact ⟨k, Nat.le_refl k, h⟩
  | append_singleton front s ih =>
    obtain ⟨i, j, m, rfl, hfront, hlast⟩ := h.split
    have hs' : ∀ t ∈ front, '/' ∉ t := fun t ht => hs t (List.mem_append_left _ ht)
    obtain ⟨i', hi', hshort⟩ := ih hs' (fun a b hab => hout a (b ++ [s]) (by simp [hab])) hfront
    have hkeep : ∃ n ≤ i + j, d.Leads n here (Path.collapse above front ++ [s]) l :=
      ⟨i' + j, by omega, hshort.append hlast⟩
    rcases Path.segment_cases s with hskip | rfl | hn
    · rw [Path.collapse_skip above hskip]
      obtain ⟨rfl, rfl⟩ := leads_nil.mp ((leads_stay hskip).mp hlast)
      exact ⟨i', hi', hshort⟩
    · obtain ⟨rfl, rfl⟩ := leads_nil.mp (leads_up.mp hlast)
      rcases Path.collapse_dotdot above hs' with
        ⟨habove, hnil, hnil'⟩ | hup | ⟨kept, last, hname, hc, hc'⟩
      · rw [hnil] at hshort
        cases hshort
        rw [hnil', hh habove]
        exact ⟨0, Nat.zero_le _, .arrive⟩
      · rwa [hup]
      · rw [hc] at hshort
        rw [hc']
        obtain ⟨n, hn, hback⟩ := hshort.collapse_back hname fun holder target hkept ht hinside => by
          by_contra hne
          exact hout front [] rfl ⟨kept, last, target, holder, m, hc, hkept, ht, hinside, hne⟩
        exact ⟨n, by omega, hback⟩
    · rwa [Path.collapse_name above ⟨hn, hs s (by simp)⟩]

end Collapse

section Join

variable {p name : Text} {l : Location}

/-- Along the path, a step up stands behind a link to a directory elsewhere. -/
def StepsOutOfLink (d : Disk) (p : Text) : Prop :=
  ∃ front behind, Path.segments p = front ++ Path.dotdot :: behind ∧
    d.EndsAtLink (!Path.isAbsolute p) (startOf d.workingDirectory p) front

theorem not_stepsOutOfLink (h : Path.dotdot ∉ Path.segments p) : ¬ d.StepsOutOfLink p := by
  rintro ⟨front, behind, hsegs, -⟩
  exact h (by simp [hsegs])

/-- The shortened path leads to a directory, past no more links than a walk may follow. -/
def LeadsShort (d : Disk) (p : Text) (l : Location) : Prop :=
  ∃ k ≤ linkLimit, d.Leads k (startOf d.workingDirectory p)
    (Path.collapse (!Path.isAbsolute p) (Path.segments p)) l

/-- A path that does not fail is neither empty nor too long. -/
theorem spellable_of_locate {purpose : Purpose} (h : ∀ e, d.locate purpose p ≠ .failed e) :
    p ≠ [] ∧ Utf8.size p < pathLimit := by
  unfold locate at h
  split at h
  · exact absurd rfl (h _)
  split at h
  · exact absurd rfl (h _)
  exact ⟨‹_›, by omega⟩

theorem locate_eq_walk (purpose : Purpose) (hp : p ≠ [] ∧ Utf8.size p < pathLimit) :
    d.locate purpose p =
      d.walk purpose linkLimit (startOf d.workingDirectory p) (Path.segments p) := by
  rw [locate, if_neg hp.1, if_neg (by omega)]

theorem Denotes.leadsShort (h : d.Denotes p l) (hout : ¬ d.StepsOutOfLink p) :
    d.LeadsShort p l := by
  have hwalk := h.2
  have hok : ∀ e, d.locate .look p ≠ .failed e := by simp [hwalk]
  rw [locate_eq_walk .look (spellable_of_locate hok)] at hwalk
  obtain ⟨k, hk, hl⟩ := exists_leads hwalk
  have hends : ∀ front behind, Path.segments p = front ++ Path.dotdot :: behind →
      ¬ d.EndsAtLink (!Path.isAbsolute p) (startOf d.workingDirectory p) front :=
    fun front behind hsegs hend => hout ⟨front, behind, hsegs, hend⟩
  obtain ⟨j, hj, hshort⟩ := hl.collapse (fun s => Path.noSlash_of_mem_segments)
    (fun habs => if_pos (by simpa using habs)) hends
  exact ⟨j, by omega, hshort⟩

theorem LeadsShort.of_keeps (hk : Keeps d d') (h : d.LeadsShort p l) : d'.LeadsShort p l := by
  obtain ⟨k, hlimit, hl⟩ := h
  refine ⟨k, hlimit, ?_⟩
  rw [hk.workingDirectory]
  exact hl.of_keeps hk

/-- The place of a name in a directory. -/
def lookUp (d : Disk) (purpose : Purpose) (l : Location) (name : Text) : Place :=
  d.walk purpose linkLimit l [name]

/-- A joined path that does not fail leads where its name leads in the directory of the path. -/
theorem LeadsShort.locate_join (h : d.LeadsShort p l) (hw : d.WellFormed)
    (hn : Path.IsName name) (purpose : Purpose)
    (hok : ∀ e, d.locate purpose (Path.join p name) ≠ .failed e) :
    d.locate purpose (Path.join p name) = d.lookUp purpose l name := by
  obtain ⟨k, hlimit, hl⟩ := h
  have hstart : startOf d.workingDirectory (Path.join p name) = startOf d.workingDirectory p := by
    simp only [startOf, Path.isAbsolute_join p hn]
  have hgo : GoesOn purpose [name] := .inr (by simp [hn.ne_nil])
  have hwalk := hl.walk hw (linkLimit - k) hgo
  rw [Nat.sub_add_cancel hlimit] at hwalk
  have hjoin : d.locate purpose (Path.join p name) = d.walk purpose (linkLimit - k) l [name] := by
    rw [locate_eq_walk purpose (spellable_of_locate hok), hstart, Path.segments_join p hn, ← hwalk]
    split
    · rw [List.singleton_append, walk_stay _ (.inl rfl)]
    · rw [List.nil_append]
  have hmore := walk_add (hjoin ▸ hok .linkLoop) k
  rw [Nat.sub_add_cancel hlimit] at hmore
  rw [hjoin, lookUp, hmore]

end Join

end NodeReshape.Disk
