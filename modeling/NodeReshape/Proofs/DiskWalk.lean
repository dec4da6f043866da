import Mathlib.Data.List.Basic
import NodeReshape.DiskAccess
import NodeReshape.Proofs.PathLocation

/-!
# Walks through a disk

A disk is well-formed when its entries form a tree with proper names. The walk of a path ends at an
entry that is there, at a free name in a directory that is there, or with an error. Its end depends
only on the directories and links that it passes.
-/
namespace NodeReshape

theorem hasZero_eq_false_iff {p : Text} : hasZero p = false ↔ '\u0000' ∉ p := by
  simp only [hasZero, List.any_eq_false, decide_eq_true_eq]
  exact ⟨fun h hm => h _ hm rfl, fun h c hc hz => h (hz ▸ hc)⟩

/-- Where a link points. -/
def Entry.target? : Entry → Option Text
  | file _ => none
  | directory => none
  | link target => some target

theorem Entry.target?_eq_some_iff {e : Entry} {t : Text} : e.target? = some t ↔ e = .link t := by
  cases e <;> simp [target?]

namespace Disk

/-- A name that an entry can have. -/
structure IsEntryName (name : Text) : Prop extends Path.IsName name where
  noZero : '\u0000' ∉ name
  short : Utf8.size name ≤ nameLimit

instance : DecidablePred IsEntryName := fun name =>
  decidable_of_iff ((name ≠ [] ∧ name ≠ Path.dot ∧ name ≠ Path.dotdot) ∧ '/' ∉ name ∧
      '\u0000' ∉ name ∧ Utf8.size name ≤ nameLimit)
    ⟨fun ⟨⟨hnil, hdot, hdotdot⟩, hslash, hzero, hshort⟩ =>
        ⟨⟨⟨hnil, hdot, hdotdot⟩, hslash⟩, hzero, hshort⟩,
      fun h => ⟨⟨h.ne_nil, h.ne_dot, h.ne_dotdot⟩, h.noSlash, h.noZero, h.short⟩⟩

/-- Every entry has a proper name and lies in a directory, and the working directory is there. -/
structure WellFormed (d : Disk) : Prop where
  parent : ∀ l name e, d.get? (l ++ [name]) = some e → d.get? l = some .directory
  named : ∀ l name e, d.get? (l ++ [name]) = some e → IsEntryName name
  target : ∀ l t, d.get? l = some (.link t) → '\u0000' ∉ t
  home : d.get? d.workingDirectory = some .directory

/-- No entry is a symbolic link. -/
def LinkFree (d : Disk) : Prop := ∀ l t, d.get? l ≠ some (.link t)

variable {d d' : Disk}

@[simp] theorem get?_nil (d : Disk) : d.get? [] = some .directory := rfl

theorem get?_concat (d : Disk) (l : Location) (name : Text) :
    d.get? (l ++ [name]) = d.entries[l ++ [name]]? := by
  simp [get?]

theorem WellFormed.front (h : d.WellFormed) {l k : Location} {e : Entry}
    (hk : d.get? (l ++ k) = some e) (hne : k ≠ []) : d.get? l = some .directory := by
  induction k using List.reverseRecOn generalizing e with
  | nil => exact absurd rfl hne
  | append_singleton k name ih =>
    rw [← List.append_assoc] at hk
    have hp := h.parent _ _ _ hk
    by_cases hn : k = []
    · simpa [hn] using hp
    · exact ih hp hn

theorem WellFormed.directory_front (h : d.WellFormed) {l k : Location}
    (hk : d.get? (l ++ k) = some .directory) : d.get? l = some .directory := by
  by_cases hne : k = []
  · simpa [hne] using hk
  · exact h.front hk hne

theorem WellFormed.isEntryName (h : d.WellFormed) {l : Location} {e : Entry}
    (hl : d.get? l = some e) : ∀ name ∈ l, IsEntryName name := by
  intro name hm
  obtain ⟨front, behind, rfl⟩ := List.append_of_mem hm
  by_cases hb : behind = []
  · exact h.named _ _ _ (hb ▸ hl)
  · rw [List.append_cons] at hl
    exact h.named _ _ _ (h.front hl hb)

theorem WellFormed.dropLast (h : d.WellFormed) {l : Location}
    (hl : d.get? l = some .directory) : d.get? l.dropLast = some .directory := by
  rcases List.eq_nil_or_concat' l with rfl | ⟨l, name, rfl⟩
  · rfl
  · rw [List.dropLast_concat]
    exact h.parent _ _ _ hl

theorem mem_toList_iff_get? {l : Location} (hl : l ≠ []) {e : Entry} :
    (l, e) ∈ d.toList ↔ d.get? l = some e := by
  rw [mem_toList_iff, get?, if_neg hl]

/-- Whether a disk is well-formed is seen from its list of entries. -/
theorem wellFormed_iff : d.WellFormed ↔
    (∀ x ∈ d.toList, ∀ name ∈ x.1.getLast?, d.get? x.1.dropLast = some .directory ∧
      IsEntryName name ∧ ∀ t ∈ x.2.target?, '\u0000' ∉ t) ∧
    d.get? d.workingDirectory = some .directory := by
  constructor
  · intro h
    refine ⟨?_, h.home⟩
    rintro ⟨l, e⟩ hx name hname
    obtain ⟨front, rfl⟩ := List.getLast?_eq_some_iff.mp hname
    have he : d.get? (front ++ [name]) = some e := (mem_toList_iff_get? (by simp)).mp hx
    rw [List.dropLast_concat]
    exact ⟨h.parent _ _ _ he, h.named _ _ _ he, fun t ht =>
      h.target _ t (he.trans (congrArg some (Entry.target?_eq_some_iff.mp ht)))⟩
  · rintro ⟨hall, hhome⟩
    have hat : ∀ l name e, d.get? (l ++ [name]) = some e → d.get? l = some .directory ∧
        IsEntryName name ∧ ∀ t ∈ e.target?, '\u0000' ∉ t := by
      intro l name e he
      have hx := hall _ ((mem_toList_iff_get? (by simp)).mpr he) name (by simp)
      rwa [List.dropLast_concat] at hx
    refine ⟨fun l name e he => (hat l name e he).1, fun l name e he => (hat l name e he).2.1,
      fun l t hl => ?_, hhome⟩
    rcases List.eq_nil_or_concat' l with rfl | ⟨front, name, rfl⟩
    · simp at hl
    · exact (hat front name _ hl).2.2 t rfl

/-- Whether a disk has links is seen from its list of entries. -/
theorem linkFree_iff : d.LinkFree ↔ ∀ x ∈ d.toList, x.1 = [] ∨ x.2.target? = none := by
  constructor
  · rintro h ⟨l, e⟩ hx
    by_cases hl : l = []
    · exact .inl hl
    · refine .inr (Option.eq_none_iff_forall_ne_some.mpr fun t ht => h l t ?_)
      rw [← Entry.target?_eq_some_iff.mp ht]
      exact (mem_toList_iff_get? hl).mp hx
  · intro h l t ht
    have hl : l ≠ [] := fun hl => by simp [hl] at ht
    have hnone := (h _ ((mem_toList_iff_get? hl).mpr ht)).resolve_left hl
    simp [Entry.target?] at hnone

instance : Decidable d.WellFormed := decidable_of_iff' _ wellFormed_iff

instance : Decidable d.LinkFree := decidable_of_iff' _ linkFree_iff

section Stretch

variable (d : Disk) (purpose : Purpose) (here : Location) {name : Text} {rest : List Text}

theorem stretch_stay (h : name = [] ∨ name = Path.dot) :
    d.stretch purpose here (name :: rest) = d.stretch purpose here rest := by
  simp [stretch, h]

theorem stretch_up :
    d.stretch purpose here (Path.dotdot :: rest) = d.stretch purpose here.dropLast rest := by
  have h : ¬ (Path.dotdot = [] ∨ Path.dotdot = Path.dot) := by decide
  rw [stretch]
  simp [h]

/-- What becomes of a walk at a name in the directory `here`. -/
theorem stretch_name (hn : Path.IsProper name) : d.stretch purpose here (name :: rest) =
    if purpose = .write ∧ rest.all (· = []) ∧ rest ≠ [] then .arrived (.failed .isDirectory)
    else if nameLimit < Utf8.size name then .arrived (.failed .nameTooLong)
    else match d.get? (here ++ [name]) with
      | none =>
        .arrived (if rest.all (· = []) then .free (here ++ [name]) else .failed .noEntry)
      | some .directory => d.stretch purpose (here ++ [name]) rest
      | some (.file content) =>
        if rest = [] ∨ (purpose = .make ∧ rest.all (· = [])) then
          .arrived (.found (here ++ [name]) (.file content))
        else .arrived (.failed .notDirectory)
      | some (.link target) =>
        if purpose = .make ∧ rest.all (· = []) then
          .arrived (.found (here ++ [name]) (.link target))
        else .atLink here target rest := by
  rw [get?_concat]
  exact (if_neg (by simp [hn.ne_nil, hn.ne_dot])).trans (if_neg hn.ne_dotdot)

end Stretch

theorem all_eq_nil_iff {rest : List Text} :
    rest.all (fun s => decide (s = [])) = true ↔ ∀ s ∈ rest, s = [] := by simp

/-- The walk up to the first link, one segment after another. -/
@[elab_as_elim]
theorem stretch_induction {purpose : Purpose} {motive : Location → List Text → Stretch → Prop}
    (arrived : ∀ here, motive here [] (.arrived (.found here .directory)))
    (stay : ∀ here name rest, name = [] ∨ name = Path.dot →
      motive here rest (d.stretch purpose here rest) →
      motive here (name :: rest) (d.stretch purpose here rest))
    (up : ∀ here rest, motive here.dropLast rest (d.stretch purpose here.dropLast rest) →
      motive here (Path.dotdot :: rest) (d.stretch purpose here.dropLast rest))
    (failed : ∀ here name rest e, motive here (name :: rest) (.arrived (.failed e)))
    (free : ∀ here name rest, Path.IsProper name → Utf8.size name ≤ nameLimit →
      d.get? (here ++ [name]) = none → (∀ s ∈ rest, s = []) →
      motive here (name :: rest) (.arrived (.free (here ++ [name]))))
    (missing : ∀ here name rest, Path.IsProper name → d.get? (here ++ [name]) = none →
      motive here (name :: rest) (.arrived (.failed .noEntry)))
    (enter : ∀ here name rest, Path.IsProper name → d.get? (here ++ [name]) = some .directory →
      motive (here ++ [name]) rest (d.stretch purpose (here ++ [name]) rest) →
      motive here (name :: rest) (d.stretch purpose (here ++ [name]) rest))
    (found : ∀ here name rest e, Path.IsProper name → d.get? (here ++ [name]) = some e →
      e ≠ .directory → (∀ s ∈ rest, s = []) →
      motive here (name :: rest) (.arrived (.found (here ++ [name]) e)))
    (atLink : ∀ here name rest target, Path.IsProper name →
      d.get? (here ++ [name]) = some (.link target) →
      motive here (name :: rest) (.atLink here target rest))
    (here : Location) (names : List Text) :
    motive here names (d.stretch purpose here names) := by
  induction names generalizing here with
  | nil => exact arrived here
  | cons name rest ih =>
    rcases Path.segment_cases name with hskip | rfl | hn
    · rw [stretch_stay d purpose here hskip]
      exact stay here name rest hskip (ih here)
    · rw [stretch_up]
      exact up here rest (ih _)
    rw [stretch_name d purpose here hn]
    split
    · exact failed ..
    split
    · exact failed ..
    split
    · split
      · exact free here name rest hn (by omega) ‹_› (all_eq_nil_iff.mp ‹_›)
      · exact missing here name rest hn ‹_›
    · exact enter here name rest hn ‹_› (ih _)
    · split
      · rename_i hr
        refine found here name rest _ hn ‹_› (by simp) fun s hs => ?_
        rcases hr with rfl | hr
        · simp at hs
        · exact all_eq_nil_iff.mp hr.2 s hs
      · exact failed ..
    · split
      · rename_i hr
        exact found here name rest _ hn ‹_› (by simp) (all_eq_nil_iff.mp hr.2)
      · exact atLink here name rest _ hn ‹_›

/-- Segments without slashes and zero characters. -/
def Clean (names : List Text) : Prop := ∀ s ∈ names, '/' ∉ s ∧ '\u0000' ∉ s

theorem clean_segments {p : Text} (h : '\u0000' ∉ p) : Clean (Path.segments p) := fun _ hs =>
  ⟨Path.noSlash_of_mem_segments hs, fun hc => h (Path.mem_of_mem_segments hs hc).1⟩

theorem Clean.tail {name : Text} {rest : List Text} (h : Clean (name :: rest)) : Clean rest :=
  fun s hs => h s (List.mem_cons_of_mem _ hs)

theorem Clean.append {names rest : List Text} (h : Clean names) (h' : Clean rest) :
    Clean (names ++ rest) := fun s hs => (List.mem_append.mp hs).elim (h s) (h' s)

/-- The place is what the disk holds there: an entry, or a free name in a directory. -/
def Fits (d : Disk) : Place → Prop
  | .found l e => d.get? l = some e
  | .free l => ∃ parent name, l = parent ++ [name] ∧ d.get? parent = some .directory ∧
      IsEntryName name ∧ d.get? l = none
  | .failed _ => True

theorem stretch_fits (hw : d.WellFormed) (purpose : Purpose) {here : Location} {names : List Text}
    (hh : d.get? here = some .directory) (hc : Clean names) :
    match d.stretch purpose here names with
    | .arrived p => d.Fits p
    | .atLink directory target rest =>
      d.get? directory = some .directory ∧ Clean (Path.segments target ++ rest) := by
  induction here, names using stretch_induction with
  | arrived here => exact hh
  | stay here name rest _ ih => exact ih hh hc.tail
  | up here rest ih => exact ih (hw.dropLast hh) hc.tail
  | failed here name rest e => trivial
  | free here name rest hn hs hnone _ =>
    obtain ⟨hslash, hzero⟩ := hc name List.mem_cons_self
    exact ⟨here, name, rfl, hh, ⟨⟨hn, hslash⟩, hzero, hs⟩, hnone⟩
  | missing here name rest _ _ => trivial
  | enter here name rest _ hd ih => exact ih hd hc.tail
  | found here name rest e _ he _ _ => exact he
  | atLink here name rest target _ ht =>
    exact ⟨hh, (clean_segments (hw.target _ _ ht)).append hc.tail⟩

theorem get?_startOf (d : Disk) {here : Location} (hh : d.get? here = some .directory) (p : Text) :
    d.get? (startOf here p) = some .directory := by
  unfold startOf
  split
  · rfl
  · exact hh

theorem walk_fits (hw : d.WellFormed) (purpose : Purpose) (links : ℕ) {here : Location}
    {names : List Text} (hh : d.get? here = some .directory) (hc : Clean names) :
    d.Fits (d.walk purpose links here names) := by
  induction links generalizing here names with
  | zero =>
    have h := stretch_fits hw purpose hh hc
    rw [walk]
    cases hs : d.stretch purpose here names with
    | arrived p => rwa [hs] at h
    | atLink directory target rest => trivial
  | succ links ih =>
    have h := stretch_fits hw purpose hh hc
    rw [walk]
    cases hs : d.stretch purpose here names with
    | arrived p => rwa [hs] at h
    | atLink directory target rest =>
      rw [hs] at h
      exact ih (d.get?_startOf h.1 target) h.2

theorem locate_fits (hw : d.WellFormed) (purpose : Purpose) {p : Text} (hz : hasZero p = false) :
    d.Fits (d.locate purpose p) := by
  unfold locate
  split
  · trivial
  split
  · trivial
  exact walk_fits hw purpose linkLimit (d.get?_startOf hw.home p)
    (clean_segments (hasZero_eq_false_iff.mp hz))

/-- A walk along the path comes to this directory with these segments left. -/
inductive Comes (d : Disk) (p : Text) : Location → List Text → Prop
  | start : Comes d p (startOf d.workingDirectory p) (Path.segments p)
  | stay {here name rest} : Comes d p here (name :: rest) → name = [] ∨ name = Path.dot →
    Comes d p here rest
  | up {here rest} : Comes d p here (Path.dotdot :: rest) → Comes d p here.dropLast rest
  | enter {here name rest} : Comes d p here (name :: rest) → Path.IsProper name →
    d.get? (here ++ [name]) = some .directory → Comes d p (here ++ [name]) rest
  | follow {here name rest target} : Comes d p here (name :: rest) → Path.IsProper name →
    d.get? (here ++ [name]) = some (.link target) →
    Comes d p (startOf here target) (Path.segments target ++ rest)

/-- A walk along the path asks for the entry at this location. -/
def Meets (d : Disk) (p : Text) (l : Location) : Prop :=
  ∃ here name rest, d.Comes p here (name :: rest) ∧ Path.IsProper name ∧ l = here ++ [name]

theorem Comes.atLink {p : Text} {purpose : Purpose} {here : Location} {names : List Text}
    (h : d.Comes p here names) : ∀ directory target rest,
      d.stretch purpose here names = .atLink directory target rest →
      d.Comes p (startOf directory target) (Path.segments target ++ rest) := by
  induction here, names using stretch_induction with
  | arrived here => simp
  | stay here name rest hskip ih => exact ih (h.stay hskip)
  | up here rest ih => exact ih h.up
  | failed here name rest e => simp
  | free here name rest _ _ _ _ => simp
  | missing here name rest _ _ => simp
  | enter here name rest hn hd ih => exact ih (h.enter hn hd)
  | found here name rest e _ _ _ _ => simp
  | atLink here name rest target hn ht =>
    rintro _ _ _ ⟨⟩
    exact h.follow hn ht

theorem stretch_congr {p : Text} (h : ∀ l, d.Meets p l → d'.get? l = d.get? l)
    {purpose : Purpose} {here : Location} {names : List Text} (hc : d.Comes p here names) :
    d'.stretch purpose here names = d.stretch purpose here names := by
  induction names generalizing here with
  | nil => rfl
  | cons name rest ih =>
    rcases Path.segment_cases name with hskip | rfl | hn
    · rw [stretch_stay d purpose here hskip, stretch_stay d' purpose here hskip]
      exact ih (hc.stay hskip)
    · rw [stretch_up, stretch_up]
      exact ih hc.up
    rw [stretch_name d purpose here hn, stretch_name d' purpose here hn,
      h _ ⟨here, name, rest, hc, hn, rfl⟩]
    split
    · rfl
    split
    · rfl
    cases he : d.get? (here ++ [name]) with
    | none => rfl
    | some e =>
      cases e with
      | file content => rfl
      | directory => exact ih (hc.enter hn he)
      | link target => rfl

theorem walk_congr {p : Text} (h : ∀ l, d.Meets p l → d'.get? l = d.get? l) {purpose : Purpose}
    {links : ℕ} {here : Location} {names : List Text} (hc : d.Comes p here names) :
    d'.walk purpose links here names = d.walk purpose links here names := by
  induction links generalizing here names with
  | zero => rw [walk, walk, stretch_congr h hc]
  | succ links ih =>
    rw [walk, walk, stretch_congr h hc]
    cases hs : d.stretch purpose here names with
    | arrived place => rfl
    | atLink directory target rest => exact ih (hc.atLink directory target rest hs)

/-- Where a path leads depends on the entries only that its walk asks for. -/
theorem locate_congr (hd : d'.workingDirectory = d.workingDirectory) {p : Text}
    (h : ∀ l, d.Meets p l → d'.get? l = d.get? l) (purpose : Purpose) :
    d'.locate purpose p = d.locate purpose p := by
  rw [locate, locate, hd, walk_congr h .start]

/-- The directories and links of a disk are there in another one, which has the same working
directory. -/
structure Keeps (d d' : Disk) : Prop where
  workingDirectory : d'.workingDirectory = d.workingDirectory
  directory : ∀ l, d.get? l = some .directory → d'.get? l = some .directory
  link : ∀ l t, d.get? l = some (.link t) → d'.get? l = some (.link t)

/-- The walk has found something that the disk holds as well. -/
def Holds (d : Disk) : Place → Prop
  | .found l (.file content) => d.get? l = some (.file content)
  | .found _ _ => True
  | _ => False

/-- The walk has come to a link, or has found something that the disk holds as well. -/
def HoldsEnd (d : Disk) : Stretch → Prop
  | .arrived p => d.Holds p
  | .atLink _ _ _ => True

theorem stretch_of_keeps (hk : Keeps d d') {purpose : Purpose} {here : Location}
    {names : List Text} (h : d'.HoldsEnd (d.stretch purpose here names)) :
    d'.stretch purpose here names = d.stretch purpose here names := by
  induction names generalizing here with
  | nil => rfl
  | cons name rest ih =>
    rcases Path.segment_cases name with hskip | rfl | hn
    · rw [stretch_stay d purpose here hskip] at h ⊢
      rw [stretch_stay d' purpose here hskip]
      exact ih h
    · rw [stretch_up] at h ⊢
      rw [stretch_up]
      exact ih h
    rw [stretch_name d purpose here hn] at h ⊢
    rw [stretch_name d' purpose here hn]
    by_cases hslash : purpose = .write ∧ rest.all (· = []) ∧ rest ≠ []
    · rw [if_pos hslash, if_pos hslash]
    rw [if_neg hslash] at h ⊢
    rw [if_neg hslash]
    by_cases hlong : nameLimit < Utf8.size name
    · rw [if_pos hlong, if_pos hlong]
    rw [if_neg hlong] at h ⊢
    rw [if_neg hlong]
    cases he : d.get? (here ++ [name]) with
    | none =>
      simp only [he] at h
      split at h <;> exact h.elim
    | some e =>
      cases e with
      | directory =>
        simp only [he] at h
        rw [hk.directory _ he]
        exact ih h
      | link target => rw [hk.link _ _ he]
      | file content =>
        have hfile : d'.get? (here ++ [name]) = some (.file content) := by
          by_cases hr : rest = [] ∨ (purpose = .make ∧ rest.all (· = []))
          · simp only [he, if_pos hr] at h
            exact h
          · simp only [he, if_neg hr] at h
            exact h.elim
        rw [hfile]

theorem walk_of_keeps (hk : Keeps d d') {purpose : Purpose} {links : ℕ} {here : Location}
    {names : List Text} (h : d'.Holds (d.walk purpose links here names)) :
    d'.walk purpose links here names = d.walk purpose links here names := by
  induction links generalizing here names with
  | zero =>
    rw [walk] at h ⊢
    rw [walk]
    cases hs : d.stretch purpose here names with
    | arrived p =>
      rw [hs] at h
      rw [stretch_of_keeps hk (by rw [hs]; exact h), hs]
    | atLink directory target rest =>
      rw [hs] at h
      exact h.elim
  | succ links ih =>
    rw [walk] at h ⊢
    rw [walk]
    cases hs : d.stretch purpose here names with
    | arrived p =>
      rw [hs] at h
      rw [stretch_of_keeps hk (by rw [hs]; exact h), hs]
    | atLink directory target rest =>
      rw [hs] at h
      rw [stretch_of_keeps hk (by rw [hs]; trivial), hs]
      exact ih h

theorem locate_of_keeps (hk : Keeps d d') {purpose : Purpose} {p : Text}
    (h : d'.Holds (d.locate purpose p)) : d'.locate purpose p = d.locate purpose p := by
  unfold locate at h ⊢
  split
  · rfl
  rw [if_neg ‹_›] at h
  split
  · rfl
  rw [if_neg ‹_›] at h
  rw [hk.workingDirectory]
  exact walk_of_keeps hk h

/-- The path leads to a directory. -/
def Denotes (d : Disk) (p : Text) (l : Location) : Prop :=
  hasZero p = false ∧ d.locate .look p = .found l .directory

theorem list_eq_ok_iff {p : Text} {entries : List (Text × Entry)} :
    d.list p = .ok entries ↔ ∃ l, d.Denotes p l ∧ entries = d.children l := by
  unfold list Denotes
  cases hasZero p with
  | true => simp
  | false =>
    cases d.locate .look p with
    | found l e => cases e <;> simp [eq_comm]
    | free l => simp
    | failed e => simp

theorem Denotes.get? (hw : d.WellFormed) {p : Text} {l : Location} (h : d.Denotes p l) :
    d.get? l = some .directory := by
  have hf := locate_fits hw .look h.1
  rwa [h.2] at hf

theorem Denotes.of_keeps (hk : Keeps d d') {p : Text} {l : Location} (h : d.Denotes p l) :
    d'.Denotes p l :=
  ⟨h.1, by rw [locate_of_keeps hk (by rw [h.2]; trivial), h.2]⟩

theorem Denotes.unique {p : Text} {l k : Location} (h : d.Denotes p l) (h' : d.Denotes p k) :
    l = k := by
  have he := h.2.symm.trans h'.2
  cases he
  rfl

end Disk
end NodeReshape
