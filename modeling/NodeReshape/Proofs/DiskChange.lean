import NodeReshape.Proofs.DiskWalk

/-!
# What writing and making directories change

A write puts one file where a path leads. Making a directory with all those in front of it adds
directories and changes no entry that is there. Both leave a well-formed disk well-formed.
-/
namespace NodeReshape.Disk

variable {d d' : Disk}

theorem get?_put_of_ne_nil (d : Disk) {l : Location} (hl : l ≠ []) (k : Location) (e : Entry) :
    (d.put l e).get? k = if l = k then some e else d.get? k := by
  by_cases hk : k = []
  · simp [hk, hl]
  · exact get?_put d l k e hk

@[simp] theorem get?_put_self (d : Disk) (l : Location) (name : Text) (e : Entry) :
    (d.put (l ++ [name]) e).get? (l ++ [name]) = some e := by
  rw [get?_put_of_ne_nil d (by simp), if_pos rfl]

theorem get?_put_of_ne (d : Disk) {l k : Location} (e : Entry) (h : l ≠ k) :
    (d.put l e).get? k = d.get? k := by
  by_cases hk : k = []
  · simp [hk]
  · rw [get?_put d l k e hk, if_neg h]

theorem WellFormed.put (hw : d.WellFormed) {l : Location} {name : Text} {e : Entry}
    (hl : d.get? l = some .directory) (hn : IsEntryName name)
    (hd : d.get? (l ++ [name]) ≠ some .directory) (ht : ∀ t, e = .link t → '\u0000' ∉ t) :
    (d.put (l ++ [name]) e).WellFormed := by
  have hstay : ∀ k, d.get? k = some .directory →
      (d.put (l ++ [name]) e).get? k = some .directory := fun k hk => by
    have hne : l ++ [name] ≠ k := fun h => hd (h ▸ hk)
    rw [get?_put_of_ne d e hne, hk]
  refine ⟨fun k n x hx => ?_, fun k n x hx => ?_, fun k t hx => ?_, hstay _ hw.home⟩
  · by_cases h : l ++ [name] = k ++ [n]
    · rw [← (List.append_inj' h rfl).1]
      exact hstay l hl
    · rw [get?_put_of_ne d e h] at hx
      exact hstay k (hw.parent k n x hx)
  · by_cases h : l ++ [name] = k ++ [n]
    · rw [← List.singleton_inj.mp (List.append_inj' h rfl).2]
      exact hn
    · rw [get?_put_of_ne d e h] at hx
      exact hw.named k n x hx
  · by_cases h : l ++ [name] = k
    · rw [← h, get?_put_self] at hx
      exact ht t (Option.some.inj hx)
    · rw [get?_put_of_ne d e h] at hx
      exact hw.target k t hx

theorem LinkFree.put (hl : d.LinkFree) (l : Location) {e : Entry} (he : ∀ t, e ≠ .link t) :
    (d.put l e).LinkFree := by
  intro k t hk
  by_cases h : l = k
  · by_cases hnil : k = []
    · simp [hnil] at hk
    · rw [get?_put d l k e hnil, if_pos h] at hk
      exact he t (Option.some.inj hk)
  · rw [get?_put_of_ne d e h] at hk
    exact hl k t hk

/-- A free place is in a directory, and something put there leaves the disk well-formed. -/
theorem WellFormed.put_of_free (hw : d.WellFormed) {purpose : Purpose} {p : Text} {l : Location}
    {e : Entry} (hz : hasZero p = false) (h : d.locate purpose p = .free l)
    (ht : ∀ t, e = .link t → '\u0000' ∉ t) : (d.put l e).WellFormed := by
  have hf := locate_fits hw purpose hz
  rw [h] at hf
  obtain ⟨parent, name, rfl, hp, hn, hnone⟩ := hf
  exact hw.put hp hn (by simp [hnone]) ht

/-- A disk like another one, with more directories at locations of a kind. -/
structure GrowsTo (made : Location → Prop) (d d' : Disk) : Prop where
  workingDirectory : d'.workingDirectory = d.workingDirectory
  get? : ∀ l, d'.get? l = d.get? l ∨
    d.get? l = none ∧ d'.get? l = some .directory ∧ made l

section Grows

variable {made : Location → Prop}

theorem GrowsTo.refl (d : Disk) : GrowsTo made d d := ⟨rfl, fun _ => .inl rfl⟩

theorem GrowsTo.trans {d₁ d₂ d₃ : Disk} (h : GrowsTo made d₁ d₂) (h' : GrowsTo made d₂ d₃) :
    GrowsTo made d₁ d₃ := by
  refine ⟨h'.workingDirectory.trans h.workingDirectory, fun l => ?_⟩
  rcases h.get? l with he | ⟨hn, hd, hm⟩
  · rcases h'.get? l with he' | ⟨hn', hd', hm'⟩
    · exact .inl (he'.trans he)
    · exact .inr ⟨he ▸ hn', hd', hm'⟩
  · rcases h'.get? l with he' | ⟨hn', _, _⟩
    · exact .inr ⟨hn, he'.trans hd, hm⟩
    · rw [hd] at hn'
      simp at hn'

theorem GrowsTo.put {l : Location} (hl : d.get? l = none) (hm : made l) :
    GrowsTo made d (d.put l .directory) := by
  refine ⟨rfl, fun k => ?_⟩
  by_cases h : l = k
  · subst h
    have hne : l ≠ [] := fun h => by simp [h] at hl
    exact .inr ⟨hl, by rw [get?_put d l l _ hne, if_pos rfl], hm⟩
  · exact .inl (get?_put_of_ne d _ h)

theorem GrowsTo.get?_eq_some (h : GrowsTo made d d') {l : Location} {e : Entry}
    (hl : d.get? l = some e) : d'.get? l = some e := by
  rcases h.get? l with he | ⟨hn, _⟩
  · rw [he, hl]
  · rw [hl] at hn
    simp at hn

theorem GrowsTo.get?_eq_file_iff (h : GrowsTo made d d') {l : Location} {content : Bytes} :
    d'.get? l = some (.file content) ↔ d.get? l = some (.file content) := by
  refine ⟨fun hl => ?_, h.get?_eq_some⟩
  rcases h.get? l with he | ⟨_, hd, _⟩
  · rw [← he, hl]
  · rw [hl] at hd
    simp at hd

theorem GrowsTo.keeps (h : GrowsTo made d d') : Keeps d d' :=
  ⟨h.workingDirectory, fun _ => h.get?_eq_some, fun _ _ => h.get?_eq_some⟩

/-- A path leads elsewhere on a disk with more directories only when one of them is where its walk
found nothing. -/
theorem GrowsTo.locate_eq_or (hg : GrowsTo made d d') (purpose : Purpose)
    (p : Text) : d'.locate purpose p = d.locate purpose p ∨
      ∃ l, d.Meets p l ∧ d.get? l = none ∧ d'.get? l = some .directory ∧ made l := by
  by_cases h : ∀ l, d.Meets p l → d'.get? l = d.get? l
  · exact .inl (locate_congr hg.workingDirectory h purpose)
  · push Not at h
    obtain ⟨l, hl, hne⟩ := h
    exact .inr ⟨l, hl, (hg.get? l).resolve_left hne⟩

theorem GrowsTo.linkFree (h : GrowsTo made d d') (hl : d.LinkFree) : d'.LinkFree := by
  intro l t ht
  rcases h.get? l with he | ⟨_, hd, _⟩
  · exact hl l t (he ▸ ht)
  · rw [ht] at hd
    simp at hd

end Grows

theorem makeDirectory_eq_ok_iff {p : Text} :
    d.makeDirectory p = .ok d' ↔ ∃ l, d.locate .make p = .free l ∧ d' = d.put l .directory := by
  unfold makeDirectory
  cases d.locate .make p <;> simp [eq_comm]

section Ensure

variable {below : Bool} {p : Text} {fronts : List Text}

theorem ensure_of_ok {made : Disk} (h : d.makeDirectory p = .ok made) :
    d.ensure below p fronts = (made, .ok ()) := by
  cases fronts <;> simp [ensure, h]

theorem ensure_of_error {e : SystemError} (h : d.makeDirectory p = .error e)
    (hlast : fronts = [] ∨ e ≠ .noEntry) :
    d.ensure below p fronts = (d, (d.settle below p e).mapError (·, p)) := by
  cases fronts with
  | nil => rw [ensure, h]
  | cons q fronts =>
    have he : e ≠ .noEntry := hlast.resolve_left (by simp)
    rw [ensure, h]
    cases e <;> first | rfl | exact absurd rfl he

/-- Where nothing is found on the way, the front is made first, and then the path itself is tried
again. -/
theorem ensure_of_noEntry {q : Text} (h : d.makeDirectory p = .error .noEntry) :
    d.ensure below p (q :: fronts) = match d.ensure true q fronts with
      | (d', .error e) => (d', .error e)
      | (d', .ok ()) => d'.ensure below p [] := by
  rw [ensure, h]
  rfl

/-- What holds of a disk and goes on when a directory is made holds after all directories of a path
are made. -/
theorem ensure_invariant {P : Disk → Prop} (below : Bool) (p : Text) (fronts : List Text)
    (step : ∀ q ∈ p :: fronts, ∀ d d', P d → d.makeDirectory q = .ok d' → P d') (d : Disk)
    (h : P d) : P (d.ensure below p fronts).1 := by
  have hlast : ∀ q ∈ p :: fronts, ∀ d below, P d → P (d.ensure below q []).1 := by
    intro q hq d below h
    cases hmake : d.makeDirectory q with
    | ok made =>
      rw [ensure_of_ok hmake]
      exact step q hq _ _ h hmake
    | error e =>
      rw [ensure_of_error hmake (.inl rfl)]
      exact h
  induction fronts generalizing d below p with
  | nil => exact hlast p List.mem_cons_self d below h
  | cons q fronts ih =>
    have hfront : P (d.ensure true q fronts).1 :=
      ih true q (fun r hr => step r (List.mem_cons_of_mem _ hr)) d h
        fun r hr => hlast r (List.mem_cons_of_mem _ hr)
    cases hmake : d.makeDirectory p with
    | ok made =>
      rw [ensure_of_ok hmake]
      exact step p List.mem_cons_self _ _ h hmake
    | error e =>
      by_cases he : e = .noEntry
      · rw [ensure_of_noEntry (he ▸ hmake)]
        rcases hq : d.ensure true q fronts with ⟨d', e | _⟩
        · rwa [hq] at hfront
        · rw [hq] at hfront
          exact hlast p List.mem_cons_self d' below hfront
      · rw [ensure_of_error hmake (.inr he)]
        exact h

/-- Directories made with those in front of them are added where their paths lead to free
places. -/
theorem ensure_growsTo {made : Location → Prop} (hw : d.WellFormed) (below : Bool) (p : Text)
    (fronts : List Text) (hz : ∀ q ∈ p :: fronts, hasZero q = false)
    (hmade : ∀ q ∈ p :: fronts, ∀ d' l, GrowsTo made d d' → d'.locate .make q = .free l → made l) :
    (d.ensure below p fronts).1.WellFormed ∧ GrowsTo made d (d.ensure below p fronts).1 := by
  refine ensure_invariant (P := fun d' => d'.WellFormed ∧ GrowsTo made d d') below p fronts ?_ d
    ⟨hw, .refl d⟩
  rintro q hq d₁ d₂ ⟨hw₁, hg⟩ hmake
  obtain ⟨l, hfree, rfl⟩ := makeDirectory_eq_ok_iff.mp hmake
  have hf := locate_fits hw₁ .make (hz q hq)
  rw [hfree] at hf
  obtain ⟨_, _, _, _, _, hnone⟩ := hf
  exact ⟨hw₁.put_of_free (hz q hq) hfree (by simp),
    hg.trans (.put hnone (hmade q hq d₁ l hg hfree))⟩

end Ensure

/-- The path or the text in front of one of its slashes. -/
def IsFront (p q : Text) : Prop := ∃ rest, p = q ++ rest ∧ (rest = [] ∨ rest.head? = some '/')

theorem isFront_of_mem {p q : Text} (hq : q ∈ p :: (Path.fronts p).reverse) : IsFront p q := by
  rcases List.mem_cons.mp hq with rfl | hq
  · exact ⟨[], by simp⟩
  · obtain ⟨rest, hr⟩ := Path.mem_fronts_iff.mp (List.mem_reverse.mp hq)
    exact ⟨_, hr, .inr rfl⟩

theorem IsFront.hasZero {p q : Text} (h : IsFront p q) (hz : hasZero p = false) :
    NodeReshape.hasZero q = false := by
  obtain ⟨rest, rfl, _⟩ := h
  rw [hasZero_eq_false_iff] at hz ⊢
  exact fun h => hz (List.mem_append_left _ h)

theorem ensureDirectory_growsTo {made : Location → Prop} (hw : d.WellFormed) (p : Text)
    (hmade : ∀ q, IsFront p q → ∀ d' l, GrowsTo made d d' → d'.locate .make q = .free l → made l) :
    (d.ensureDirectory p).1.WellFormed ∧ GrowsTo made d (d.ensureDirectory p).1 := by
  unfold ensureDirectory
  split
  · exact ⟨hw, .refl d⟩
  have hz : hasZero p = false := by simpa using ‹¬ hasZero p = true›
  exact ensure_growsTo hw false p _ (fun q hq => (isFront_of_mem hq).hasZero hz)
    fun q hq => hmade q (isFront_of_mem hq)

theorem ensureDirectory_grows (hw : d.WellFormed) (p : Text) :
    (d.ensureDirectory p).1.WellFormed ∧ GrowsTo (fun _ => True) d (d.ensureDirectory p).1 :=
  ensureDirectory_growsTo hw p fun _ _ _ _ _ _ => trivial

theorem settle_eq_ok {below : Bool} {p : Text} {error : SystemError}
    (h : d.settle below p error = .ok ()) : ∃ l, d.locate .look p = .found l .directory := by
  unfold settle at h
  split at h
  · simp at h
  unfold leadsToDirectory at h
  cases hp : d.locate .look p with
  | found l e => cases e <;> simp_all
  | free l => simp_all
  | failed e => simp_all

theorem ensure_last_eq_ok {below : Bool} {p : Text} (h : (d.ensure below p []).2 = .ok ()) :
    d.makeDirectory p = .ok (d.ensure below p []).1 ∨
      d = (d.ensure below p []).1 ∧ ∃ l, d.locate .look p = .found l .directory := by
  cases hmake : d.makeDirectory p with
  | ok made =>
    rw [ensure_of_ok hmake]
    exact .inl rfl
  | error e =>
    rw [ensure_of_error hmake (.inl rfl)] at h ⊢
    cases hs : d.settle below p e with
    | ok u => exact .inr ⟨rfl, settle_eq_ok hs⟩
    | error x => simp [hs, Except.mapError] at h

/-- When the directories of a path are made, the last one is new or was there already. -/
theorem ensure_eq_ok {below : Bool} {p : Text} {fronts : List Text}
    (h : (d.ensure below p fronts).2 = .ok ()) :
    ∃ d', (d' = d ∨ ∃ q rest, fronts = q :: rest ∧ d' = (d.ensure true q rest).1) ∧
      (d'.makeDirectory p = .ok (d.ensure below p fronts).1 ∨
        d' = (d.ensure below p fronts).1 ∧ ∃ l, d'.locate .look p = .found l .directory) := by
  cases fronts with
  | nil => exact ⟨d, .inl rfl, ensure_last_eq_ok h⟩
  | cons q rest =>
    cases hmake : d.makeDirectory p with
    | ok made =>
      rw [ensure_of_ok hmake]
      exact ⟨d, .inl rfl, .inl hmake⟩
    | error e =>
      by_cases he : e = .noEntry
      · rw [ensure_of_noEntry (he ▸ hmake)] at h ⊢
        rcases hq : d.ensure true q rest with ⟨d', x | _⟩
        · simp [hq] at h
        · simp only [hq] at h ⊢
          exact ⟨d', .inr ⟨q, rest, rfl, by rw [hq]⟩, ensure_last_eq_ok h⟩
      · have hsame : d.ensure below p (q :: rest) = d.ensure below p [] := by
          rw [ensure_of_error hmake (.inr he), ensure_of_error hmake (.inl rfl)]
        rw [hsame] at h ⊢
        exact ⟨d, .inl rfl, ensure_last_eq_ok h⟩

theorem ensureDirectory_eq_ok (hw : d.WellFormed) {p : Text}
    (h : (d.ensureDirectory p).2 = .ok ()) : hasZero p = false ∧
    ∃ d', (d'.WellFormed ∧ GrowsTo (fun _ => True) d d') ∧
      (d'.makeDirectory p = .ok (d.ensureDirectory p).1 ∨
        d' = (d.ensureDirectory p).1 ∧ ∃ l, d'.locate .look p = .found l .directory) := by
  unfold ensureDirectory at h ⊢
  split at h
  · simp at h
  have hz : hasZero p = false := by simpa using ‹¬ hasZero p = true›
  rw [if_neg ‹_›]
  have hok : (d.ensure false p (Path.fronts p).reverse).2 = .ok () := by
    cases he : (d.ensure false p (Path.fronts p).reverse).2 with
    | ok u => rfl
    | error e => simp [he, Except.mapError] at h
  obtain ⟨d', hd, hlast⟩ := ensure_eq_ok hok
  refine ⟨hz, d', ?_, hlast⟩
  rcases hd with rfl | ⟨q, rest, hq, rfl⟩
  · exact ⟨hw, .refl d'⟩
  · refine ensure_growsTo hw true q rest (fun r hr => ?_) fun _ _ _ _ _ _ => trivial
    refine (isFront_of_mem (p := p) ?_).hasZero hz
    rw [hq]
    exact List.mem_cons_of_mem _ hr

theorem read_eq_ok {p : Text} {content : Bytes} (h : d.read p = .ok content) :
    ∃ l, d.locate .look p = .found l (.file content) := by
  unfold read at h
  split at h
  · simp at h
  cases hp : d.locate .look p with
  | found l e =>
    cases e with
    | file bytes =>
      simp only [hp, Except.ok.injEq] at h
      exact ⟨l, by rw [h]⟩
    | directory => simp [hp] at h
    | link t => simp [hp] at h
  | free l => simp [hp] at h
  | failed e => simp [hp] at h

theorem write_cases {p : Text} {content : Bytes} (h : d.write p content = .ok d') :
    ∃ l, d' = d.put l (.file content) ∧ hasZero p = false ∧
      ((∃ old, d.locate .write p = .found l (.file old)) ∨ d.locate .write p = .free l) := by
  unfold write at h
  split at h
  · simp at h
  have hz : hasZero p = false := by simpa using ‹¬ hasZero p = true›
  cases hp : d.locate .write p with
  | found l e =>
    cases e with
    | file old =>
      simp only [hp, Except.ok.injEq] at h
      exact ⟨l, h.symm, hz, .inl ⟨old, rfl⟩⟩
    | directory => simp [hp] at h
    | link t => simp [hp] at h
  | free l =>
    simp only [hp, Except.ok.injEq] at h
    exact ⟨l, h.symm, hz, .inr rfl⟩
  | failed e => simp [hp] at h

/-- A disk like another one, with files at places that were free or held files. -/
structure WritesTo (d d' : Disk) : Prop where
  workingDirectory : d'.workingDirectory = d.workingDirectory
  get? : ∀ l, d'.get? l = d.get? l ∨ (∃ content, d'.get? l = some (.file content)) ∧
    (d.get? l = none ∨ ∃ old, d.get? l = some (.file old))

theorem WritesTo.refl (d : Disk) : WritesTo d d := ⟨rfl, fun _ => .inl rfl⟩

theorem WritesTo.trans {d₁ d₂ d₃ : Disk} (h : WritesTo d₁ d₂) (h' : WritesTo d₂ d₃) :
    WritesTo d₁ d₃ := by
  refine ⟨h'.workingDirectory.trans h.workingDirectory, fun l => ?_⟩
  rcases h'.get? l with he' | ⟨hf', hold'⟩
  · rw [he']
    exact h.get? l
  · rcases h.get? l with he | ⟨_, hold⟩
    · exact .inr ⟨hf', he ▸ hold'⟩
    · exact .inr ⟨hf', hold⟩

theorem WritesTo.put {l : Location} {name : Text} (content : Bytes)
    (h : d.get? (l ++ [name]) = none ∨ ∃ old, d.get? (l ++ [name]) = some (.file old)) :
    WritesTo d (d.put (l ++ [name]) (.file content)) := by
  refine ⟨rfl, fun k => ?_⟩
  by_cases hk : l ++ [name] = k
  · subst hk
    exact .inr ⟨⟨content, get?_put_self ..⟩, h⟩
  · exact .inl (get?_put_of_ne d _ hk)

/-- A file stays a file. -/
theorem WritesTo.exists_file (h : WritesTo d d') {l : Location} {old : Bytes}
    (hl : d.get? l = some (.file old)) : ∃ content, d'.get? l = some (.file content) := by
  rcases h.get? l with he | ⟨hf, _⟩
  · exact ⟨old, he.trans hl⟩
  · exact hf

/-- The directories and links were there before. -/
theorem WritesTo.keeps (h : WritesTo d d') : Keeps d' d := by
  refine ⟨h.workingDirectory.symm, fun l hl => ?_, fun l t hl => ?_⟩
  · rcases h.get? l with he | ⟨⟨_, hf⟩, _⟩
    · rw [← he, hl]
    · simp [hl] at hf
  · rcases h.get? l with he | ⟨⟨_, hf⟩, _⟩
    · rw [← he, hl]
    · simp [hl] at hf

/-- The directories and links of a disk stay when files are written. -/
theorem WritesTo.kept (h : WritesTo d d') : Keeps d d' := by
  refine ⟨h.workingDirectory, fun l hl => ?_, fun l t hl => ?_⟩
  · rcases h.get? l with he | ⟨-, hnone | ⟨old, hold⟩⟩
    · rw [he, hl]
    · simp [hl] at hnone
    · simp [hl] at hold
  · rcases h.get? l with he | ⟨-, hnone | ⟨old, hold⟩⟩
    · rw [he, hl]
    · simp [hl] at hnone
    · simp [hl] at hold

theorem WellFormed.write (hw : d.WellFormed) {p : Text} {content : Bytes}
    (h : d.write p content = .ok d') : d'.WellFormed ∧ WritesTo d d' := by
  obtain ⟨l, rfl, hz, hp⟩ := write_cases h
  have hfits := locate_fits hw .write hz
  rcases hp with ⟨old, hp⟩ | hp
  · rw [hp] at hfits
    have hl : d.get? l = some (.file old) := hfits
    rcases List.eq_nil_or_concat' l with rfl | ⟨parent, name, rfl⟩
    · simp at hl
    · exact ⟨hw.put (hw.parent _ _ _ hl) (hw.named _ _ _ hl) (by simp [hl]) (by simp),
        .put content (.inr ⟨old, hl⟩)⟩
  · have hput := hw.put_of_free (e := .file content) hz hp (by simp)
    rw [hp] at hfits
    obtain ⟨parent, name, rfl, -, -, hnone⟩ := hfits
    exact ⟨hput, .put content (.inl hnone)⟩

end NodeReshape.Disk
