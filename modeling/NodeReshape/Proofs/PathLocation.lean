import Mathlib.Data.List.Basic
import Mathlib.Data.List.Induction
import NodeReshape.Disk

/-!
# The location that a path spells

The segments of a path, taken one after another from a directory, spell a location without any look
at the disk. Shortening a path, putting a name behind it and making it absolute keep this location.
-/
namespace NodeReshape
namespace Path

/-- A segment that leads one entry down. -/
structure IsProper (segment : Text) : Prop where
  ne_nil : segment ≠ []
  ne_dot : segment ≠ dot
  ne_dotdot : segment ≠ dotdot

/-- A segment stays, goes up or leads down. -/
theorem segment_cases (segment : Text) :
    (segment = [] ∨ segment = dot) ∨ segment = dotdot ∨ IsProper segment := by
  by_cases hskip : segment = [] ∨ segment = dot
  · exact .inl hskip
  by_cases hup : segment = dotdot
  · exact .inr (.inl hup)
  · exact .inr (.inr ⟨fun h => hskip (.inl h), fun h => hskip (.inr h), hup⟩)

/-- A text that stands as a proper segment in a path. -/
structure IsName (segment : Text) : Prop extends IsProper segment where
  noSlash : '/' ∉ segment

theorem segments_ne_nil (p : Text) : segments p ≠ [] := by
  cases p with
  | nil => simp [segments]
  | cons c t =>
    simp only [segments]
    split
    · simp
    · split <;> simp

theorem segments_cons {c : Char} {t s : Text} {rest : List Text} (hc : c ≠ '/')
    (h : segments t = s :: rest) : segments (c :: t) = (c :: s) :: rest := by
  simp [segments, hc, h]

/-- The characters of a segment are characters of the path, and none of them is a slash. -/
theorem mem_of_mem_segments {p s : Text} {c : Char} (hs : s ∈ segments p) (hc : c ∈ s) :
    c ∈ p ∧ c ≠ '/' := by
  induction p generalizing s with
  | nil =>
    rw [List.mem_singleton.mp hs] at hc
    simp at hc
  | cons a t ih =>
    by_cases ha : a = '/'
    · rw [segments, if_pos ha] at hs
      rcases List.mem_cons.mp hs with rfl | hs
      · simp at hc
      · exact ⟨List.mem_cons_of_mem _ (ih hs hc).1, (ih hs hc).2⟩
    · obtain ⟨s', rest, h⟩ := List.exists_cons_of_ne_nil (segments_ne_nil t)
      rw [segments_cons ha h] at hs
      rw [h] at ih
      rcases List.mem_cons.mp hs with rfl | hs
      · rcases List.mem_cons.mp hc with rfl | hc
        · exact ⟨List.mem_cons_self, ha⟩
        · have := ih List.mem_cons_self hc
          exact ⟨List.mem_cons_of_mem _ this.1, this.2⟩
      · have := ih (List.mem_cons_of_mem _ hs) hc
        exact ⟨List.mem_cons_of_mem _ this.1, this.2⟩

theorem noSlash_of_mem_segments {p s : Text} (hs : s ∈ segments p) : '/' ∉ s :=
  fun hc => (mem_of_mem_segments hs hc).2 rfl

theorem segments_append (p q : Text) : segments (p ++ '/' :: q) = segments p ++ segments q := by
  induction p with
  | nil => simp [segments]
  | cons a t ih =>
    by_cases ha : a = '/'
    · simp [segments, ha, ih]
    · obtain ⟨s, rest, h⟩ := List.exists_cons_of_ne_nil (segments_ne_nil t)
      rw [segments_cons ha h, List.cons_append, List.cons_append]
      exact segments_cons ha (by rw [ih, h, List.cons_append])

theorem segments_of_noSlash {s : Text} (h : '/' ∉ s) : segments s = [s] := by
  induction s with
  | nil => rfl
  | cons a t ih =>
    obtain ⟨ha, ht⟩ := List.ne_and_not_mem_of_not_mem_cons h
    exact segments_cons ha.symm (ih ht)

@[simp] theorem ofSegments_nil : ofSegments [] = [] := rfl

@[simp] theorem ofSegments_singleton (s : Text) : ofSegments [s] = s := by
  simp [ofSegments, List.intercalate]

theorem ofSegments_cons (s : Text) {rest : List Text} (h : rest ≠ []) :
    ofSegments (s :: rest) = s ++ '/' :: ofSegments rest := by
  cases rest with
  | nil => exact absurd rfl h
  | cons t rest => simp [ofSegments, List.intercalate]

theorem mem_ofSegments {names : List Text} {c : Char} (h : c ∈ ofSegments names) :
    c = '/' ∨ ∃ s ∈ names, c ∈ s := by
  induction names with
  | nil => simp at h
  | cons s rest ih =>
    by_cases hr : rest = []
    · exact .inr ⟨s, List.mem_cons_self, by simpa [hr] using h⟩
    · rw [ofSegments_cons s hr, List.mem_append, List.mem_cons] at h
      rcases h with h | rfl | h
      · exact .inr ⟨s, List.mem_cons_self, h⟩
      · exact .inl rfl
      · exact (ih h).imp_right fun ⟨t, ht, hc⟩ => ⟨t, List.mem_cons_of_mem _ ht, hc⟩

theorem ofSegments_concat {front : List Text} (s : Text) (h : front ≠ []) :
    ofSegments (front ++ [s]) = ofSegments front ++ '/' :: s := by
  induction front with
  | nil => exact absurd rfl h
  | cons a front ih =>
    by_cases hf : front = []
    · simp [hf, ofSegments_cons]
    · rw [List.cons_append, ofSegments_cons a (by simp), ih hf, ofSegments_cons a hf,
        List.append_assoc, List.cons_append]

theorem segments_ofSegments {names : List Text} (hne : names ≠ [])
    (h : ∀ s ∈ names, '/' ∉ s) : segments (ofSegments names) = names := by
  induction names with
  | nil => exact absurd rfl hne
  | cons s rest ih =>
    have hs := segments_of_noSlash (h s List.mem_cons_self)
    by_cases hr : rest = []
    · simpa [hr] using hs
    · rw [ofSegments_cons s hr, segments_append, hs, List.singleton_append,
        ih hr fun t ht => h t (List.mem_cons_of_mem _ ht)]

/-- One segment further from a directory. -/
def enter (here : Location) (segment : Text) : Location :=
  if segment = [] ∨ segment = dot then here
  else if segment = dotdot then here.dropLast
  else here ++ [segment]

/-- The location that these segments spell from a directory. -/
def follow (here : Location) (segments : List Text) : Location := segments.foldl enter here

theorem IsProper.enter {name : Text} (h : IsProper name) (here : Location) :
    enter here name = here ++ [name] := by
  simp [Path.enter, h.ne_nil, h.ne_dot, h.ne_dotdot]

@[simp] theorem enter_nil (here : Location) : enter here [] = here := by simp [enter]

@[simp] theorem enter_dot (here : Location) : enter here dot = here := by simp [enter]

@[simp] theorem enter_dotdot (here : Location) : enter here dotdot = here.dropLast := by
  simp [enter, dotdot, dot]

@[simp] theorem follow_nil (here : Location) : follow here [] = here := rfl

theorem follow_cons (here : Location) (s : Text) (rest : List Text) :
    follow here (s :: rest) = follow (enter here s) rest := rfl

theorem follow_append (here : Location) (front behind : List Text) :
    follow here (front ++ behind) = follow (follow here front) behind := List.foldl_append

theorem follow_concat (here : Location) (front : List Text) (s : Text) :
    follow here (front ++ [s]) = enter (follow here front) s := by
  rw [follow_append]
  rfl

theorem follow_names {names : List Text} (h : ∀ s ∈ names, IsName s) (here : Location) :
    follow here names = here ++ names := by
  induction names generalizing here with
  | nil => simp
  | cons s rest ih =>
    rw [follow_cons, (h s List.mem_cons_self).enter,
      ih fun t ht => h t (List.mem_cons_of_mem _ ht), List.append_assoc, List.singleton_append]

section Push

variable (above : Bool) (made : List Text)

theorem push_skip {s : Text} (h : s = [] ∨ s = dot) : push above made s = made := by
  simp [push, h]

theorem push_name {s : Text} (h : IsName s) : push above made s = s :: made := by
  simp [push, h.ne_nil, h.ne_dot, h.ne_dotdot]

theorem push_dotdot_nil : push above [] dotdot = if above then [dotdot] else [] := by
  simp [push, dot, dotdot]

theorem push_dotdot_dotdot (h : above = true) :
    push above (dotdot :: made) dotdot = dotdot :: dotdot :: made := by
  simp [push, dot, dotdot, h]

theorem push_dotdot_name {s : Text} (h : s ≠ dotdot) : push above (s :: made) dotdot = made := by
  have hd : ¬ (dotdot = [] ∨ dotdot = dot) := by decide
  simp [push, hd, h]

end Push

theorem collapse_concat (above : Bool) (front : List Text) (s : Text) :
    collapse above (front ++ [s]) = (push above (collapse above front).reverse s).reverse := by
  simp [collapse]

theorem collapse_skip (above : Bool) {front : List Text} {s : Text} (h : s = [] ∨ s = dot) :
    collapse above (front ++ [s]) = collapse above front := by
  rw [collapse_concat, push_skip _ _ h, List.reverse_reverse]

theorem collapse_name (above : Bool) {front : List Text} {s : Text} (h : IsName s) :
    collapse above (front ++ [s]) = collapse above front ++ [s] := by
  rw [collapse_concat, push_name _ _ h, List.reverse_cons, List.reverse_reverse]

theorem collapse_ups {front : List Text} {up : ℕ}
    (h : collapse true front = List.replicate up dotdot) :
    collapse true (front ++ [dotdot]) = List.replicate up dotdot ++ [dotdot] := by
  rw [collapse_concat, h]
  cases up with
  | zero => rfl
  | succ up => simp [List.replicate_succ, push_dotdot_dotdot, ← List.replicate_succ']

/-- The segments collapse to some steps up, none if the start may not be left, and then to names on
the way down. These lead to the same location. -/
structure Shortens (above : Bool) (segs : List Text) (up : ℕ) (names : List Text) : Prop where
  collapse_eq : collapse above segs = List.replicate up dotdot ++ names
  isName : ∀ s ∈ names, IsName s ∧ s ∈ segs
  up_eq : above = false → up = 0
  follow_eq : ∀ here : Location, (above = false → here = []) →
    follow here segs = follow here (List.replicate up dotdot) ++ names

section Shortens

variable {above : Bool} {front names : List Text} {up : ℕ}

theorem Shortens.isName_concat (h : Shortens above front up names) (s : Text) :
    ∀ t ∈ names, IsName t ∧ t ∈ front ++ [s] := fun t ht =>
  ⟨(h.isName t ht).1, List.mem_append_left _ (h.isName t ht).2⟩

theorem Shortens.stay (h : Shortens above front up names) {s : Text} (hs : s = [] ∨ s = dot) :
    Shortens above (front ++ [s]) up names where
  collapse_eq := by rw [collapse_skip above hs, h.collapse_eq]
  isName := h.isName_concat s
  up_eq := h.up_eq
  follow_eq here hh := by rw [follow_concat, h.follow_eq here hh, Path.enter, if_pos hs]

theorem Shortens.enter (h : Shortens above front up names) {s : Text} (hs : IsName s) :
    Shortens above (front ++ [s]) up (names ++ [s]) where
  collapse_eq := by rw [collapse_name above hs, h.collapse_eq, List.append_assoc]
  isName t ht := by
    rcases List.mem_append.mp ht with ht | ht
    · exact h.isName_concat s t ht
    · obtain rfl := List.mem_singleton.mp ht
      exact ⟨hs, by simp⟩
  up_eq := h.up_eq
  follow_eq here hh := by
    rw [follow_concat, h.follow_eq here hh, hs.toIsProper.enter, List.append_assoc]

/-- A step up takes back the last name. -/
theorem Shortens.back {last : Text} (h : Shortens above front up (names ++ [last])) :
    Shortens above (front ++ [dotdot]) up names where
  collapse_eq := by
    have hl : last ≠ dotdot := (h.isName last (by simp)).1.ne_dotdot
    simp [collapse_concat, h.collapse_eq, push_dotdot_name, hl]
  isName t ht := h.isName_concat dotdot t (List.mem_append_left _ ht)
  up_eq := h.up_eq
  follow_eq here hh := by
    rw [follow_concat, h.follow_eq here hh, enter_dotdot, ← List.append_assoc,
      List.dropLast_concat]

/-- A step up adds to the steps up where there is no name, unless the start may not be left. -/
theorem Shortens.leave (h : Shortens above front up []) :
    ∃ up', Shortens above (front ++ [dotdot]) up' [] := by
  cases above with
  | false =>
    obtain rfl := h.up_eq rfl
    refine ⟨0, ?_, by simp, fun _ => rfl, fun here hh => ?_⟩
    · simp [collapse_concat, h.collapse_eq, push_dotdot_nil]
    · rw [follow_concat, h.follow_eq here hh, hh rfl]
      rfl
  | true =>
    refine ⟨up + 1, ?_, by simp, by simp, fun here hh => ?_⟩
    · have hc := h.collapse_eq
      rw [List.append_nil] at hc
      rw [collapse_ups hc, List.replicate_succ', List.append_nil]
    · rw [follow_concat, h.follow_eq here hh, List.replicate_succ', follow_concat]
      simp

theorem exists_shortens (above : Bool) {segs : List Text} (hs : ∀ s ∈ segs, '/' ∉ s) :
    ∃ up names, Shortens above segs up names := by
  induction segs using List.reverseRecOn with
  | nil => exact ⟨0, [], rfl, by simp, fun _ => rfl, fun here _ => by simp⟩
  | append_singleton front s ih =>
    obtain ⟨up, names, h⟩ := ih fun t ht => hs t (List.mem_append_left _ ht)
    rcases segment_cases s with hskip | rfl | hn
    · exact ⟨up, names, h.stay hskip⟩
    · rcases List.eq_nil_or_concat' names with rfl | ⟨names, last, rfl⟩
      · obtain ⟨up', h'⟩ := h.leave
        exact ⟨up', [], h'⟩
      · exact ⟨up, names, h.back⟩
    · exact ⟨up, names ++ [s], h.enter ⟨hn, hs s (by simp)⟩⟩

/-- A step up is dropped at the root, kept behind other steps up, or taken back together with the
name in front of it. -/
theorem collapse_dotdot (above : Bool) {front : List Text} (hs : ∀ s ∈ front, '/' ∉ s) :
    (above = false ∧ collapse above front = [] ∧ collapse above (front ++ [dotdot]) = []) ∨
    collapse above (front ++ [dotdot]) = collapse above front ++ [dotdot] ∨
    ∃ kept last, IsName last ∧ collapse above front = kept ++ [last] ∧
      collapse above (front ++ [dotdot]) = kept := by
  obtain ⟨up, names, h⟩ := exists_shortens above hs
  rcases List.eq_nil_or_concat' names with rfl | ⟨names, last, rfl⟩
  · have hc := h.collapse_eq
    rw [List.append_nil] at hc
    cases above with
    | false =>
      obtain rfl := h.up_eq rfl
      exact .inl ⟨rfl, hc, by rw [collapse_concat, hc]; rfl⟩
    | true =>
      exact .inr (.inl (by rw [collapse_ups hc, hc]))
  · have hlast := (h.isName last (by simp)).1
    refine .inr (.inr ⟨List.replicate up dotdot ++ names, last, hlast, ?_, ?_⟩)
    · rw [h.collapse_eq, List.append_assoc]
    · exact h.back.collapse_eq

end Shortens

theorem follow_collapse (above : Bool) {segs : List Text} (hs : ∀ s ∈ segs, '/' ∉ s)
    (here : Location) (hh : above = false → here = []) :
    follow here (collapse above segs) = follow here segs := by
  obtain ⟨up, names, hc, hn, -, hf⟩ := exists_shortens above hs
  rw [hc, hf here hh, follow_append, follow_names fun s h => (hn s h).1]

/-- From the root, collapsing the segments is to follow them. -/
theorem collapse_false {segs : List Text} (hs : ∀ s ∈ segs, '/' ∉ s) :
    collapse false segs = follow [] segs := by
  obtain ⟨up, names, hc, _, hu, hf⟩ := exists_shortens false hs
  obtain rfl := hu rfl
  rw [hc, hf [] fun _ => rfl]
  rfl

theorem isAbsolute_append {p : Text} (q : Text) (h : p ≠ []) :
    isAbsolute (p ++ q) = isAbsolute p := by
  cases p with
  | nil => exact absurd rfl h
  | cons c t => rfl

section Join

variable {a name : Text}

theorem isAbsolute_of_noSlash {p : Text} (h : '/' ∉ p) : isAbsolute p = false := by
  cases p with
  | nil => rfl
  | cons c t => simpa [isAbsolute] using (List.ne_of_not_mem_cons h).symm

/-- What is normalized when a name is joined to a path. Nothing stands before the name when the
path is empty. -/
theorem join_eq_normalize (a : Text) (hn : IsName name) : ∃ whole, join a name = normalize whole ∧
    isAbsolute whole = isAbsolute a ∧ whole.getLast? ≠ some '/' ∧
      collapse (!isAbsolute a) (segments whole) =
        collapse (!isAbsolute a) (segments a) ++ [name] := by
  have hlast : name.getLast? ≠ some '/' := fun h => hn.noSlash (List.mem_of_getLast? h)
  by_cases ha : a = []
  · subst ha
    refine ⟨name, ?_, isAbsolute_of_noSlash hn.noSlash, hlast, ?_⟩
    · simp [join, hn.ne_nil, ofSegments, List.intercalate]
    · rw [segments_of_noSlash hn.noSlash, ← List.nil_append [name], collapse_name _ hn]
      rfl
  · refine ⟨a ++ '/' :: name, ?_, isAbsolute_append _ ha, ?_, ?_⟩
    · simp [join, ha, hn.ne_nil, ofSegments, List.intercalate]
    · rwa [List.getLast?_append_of_ne_nil _ (by simp), List.getLast?_cons_of_ne_nil hn.ne_nil]
    · rw [segments_append, segments_of_noSlash hn.noSlash, collapse_name _ hn]

theorem join_name (a : Text) (hn : IsName name) :
    join a name = (if isAbsolute a then ['/'] else []) ++
      ofSegments (collapse (!isAbsolute a) (segments a) ++ [name]) := by
  obtain ⟨whole, hjoin, habs, hlast, hbody⟩ := join_eq_normalize a hn
  have hne : ofSegments (collapse (!isAbsolute a) (segments a) ++ [name]) ≠ [] := by
    by_cases hc : collapse (!isAbsolute a) (segments a) = []
    · simpa [hc] using hn.ne_nil
    · simp [ofSegments_concat name hc]
  rw [hjoin, normalize]
  simp only [habs, hbody, hlast, hne, if_false, List.append_nil]
  split <;> rfl

/-- Every segment of a collapsed path has characters, none of them a slash. -/
theorem of_mem_collapse {above : Bool} {p s : Text} (h : s ∈ collapse above (segments p)) :
    s ≠ [] ∧ '/' ∉ s := by
  obtain ⟨up, names, hc, hn, -, -⟩ :=
    exists_shortens above fun s => noSlash_of_mem_segments (p := p)
  rw [hc] at h
  rcases List.mem_append.mp h with h | h
  · rw [List.eq_of_mem_replicate h]
    decide
  · exact ⟨(hn s h).1.ne_nil, (hn s h).1.noSlash⟩

theorem of_mem_collapse_concat (hn : IsName name) {above : Bool} {s : Text}
    (h : s ∈ collapse above (segments a) ++ [name]) : s ≠ [] ∧ '/' ∉ s := by
  rcases List.mem_append.mp h with h | h
  · exact of_mem_collapse h
  · exact List.mem_singleton.mp h ▸ ⟨hn.ne_nil, hn.noSlash⟩

theorem isAbsolute_ofSegments {names : List Text} (h : ∀ s ∈ names, s ≠ [] ∧ '/' ∉ s) :
    isAbsolute (ofSegments names) = false := by
  cases names with
  | nil => rfl
  | cons s rest =>
    obtain ⟨hs, hslash⟩ := h s List.mem_cons_self
    obtain ⟨c, t, rfl⟩ := List.exists_cons_of_ne_nil hs
    have hc : c ≠ '/' := (List.ne_of_not_mem_cons hslash).symm
    by_cases hr : rest = []
    · simp [hr, isAbsolute, hc]
    · simp [ofSegments_cons _ hr, isAbsolute, hc]

theorem segments_join (a : Text) (hn : IsName name) :
    segments (join a name) = (if isAbsolute a then [[]] else []) ++
      (collapse (!isAbsolute a) (segments a) ++ [name]) := by
  have hbody : segments (ofSegments (collapse (!isAbsolute a) (segments a) ++ [name])) =
      collapse (!isAbsolute a) (segments a) ++ [name] :=
    segments_ofSegments (by simp) fun s hs => (of_mem_collapse_concat hn hs).2
  rw [join_name a hn]
  split
  · rw [List.singleton_append, segments, if_pos rfl, hbody]
    rfl
  · rw [List.nil_append, hbody]
    rfl

theorem isAbsolute_join (a : Text) (hn : IsName name) :
    isAbsolute (join a name) = isAbsolute a := by
  rw [join_name a hn]
  cases h : isAbsolute a with
  | false => exact isAbsolute_ofSegments fun s hs => of_mem_collapse_concat hn hs
  | true => rfl

theorem join_ne_nil (a : Text) (hn : IsName name) : join a name ≠ [] := by
  intro h
  have hs := segments_join a hn
  rw [h] at hs
  have hmem : name ∈ segments [] := by simp [hs]
  exact hn.ne_nil (List.mem_singleton.mp hmem)

theorem base_append {front : Text} (hn : IsName name)
    (hf : front = [] ∨ ∃ t, front = t ++ ['/']) : base (front ++ name) = name := by
  have hname : ∀ c ∈ name.reverse, (c != '/') = true := fun c hc => by
    simpa using fun h : c = '/' => hn.noSlash (h ▸ List.mem_reverse.mp hc)
  have hfront : front.reverse.takeWhile (· != '/') = [] := by
    rcases hf with rfl | ⟨t, rfl⟩ <;> simp
  obtain ⟨c, t, hc⟩ := List.exists_cons_of_ne_nil (List.reverse_ne_nil_iff.mpr hn.ne_nil)
  have htrim : (name.reverse ++ front.reverse).dropWhile (· == '/') =
      name.reverse ++ front.reverse := by
    have := hname c (by simp [hc])
    simp_all
  rw [base, List.reverse_append, htrim, List.takeWhile_append_of_pos hname, hfront,
    List.append_nil, List.reverse_reverse]

/-- The last segment of the joined path is the name, whatever the spelling of the directory. -/
theorem base_join (a : Text) (hn : IsName name) : base (join a name) = name := by
  rw [join_name a hn]
  by_cases hc : collapse (!isAbsolute a) (segments a) = []
  · have he : ofSegments (collapse (!isAbsolute a) (segments a) ++ [name]) = name := by
      simp [hc]
    rw [he]
    refine base_append hn ?_
    split
    · exact .inr ⟨[], rfl⟩
    · exact .inl rfl
  · rw [ofSegments_concat name hc, List.append_cons, ← List.append_assoc]
    exact base_append hn (.inr ⟨_, List.append_assoc .. |>.symm⟩)

/-- The characters of the joined path are those of its parts, slashes and dots. -/
theorem mem_join (hn : IsName name) {c : Char} (h : c ∈ join a name) :
    c ∈ a ∨ c ∈ name ∨ c = '/' ∨ c = '.' := by
  by_cases hc : c = '/'
  · exact .inr (.inr (.inl hc))
  have hbody : c ∈ ofSegments (collapse (!isAbsolute a) (segments a) ++ [name]) := by
    rw [join_name a hn] at h
    split at h <;> simpa [hc] using h
  obtain ⟨s, hs, hcs⟩ := (mem_ofSegments hbody).resolve_left hc
  obtain ⟨up, names, hcol, hnames, -, -⟩ :=
    exists_shortens (!isAbsolute a) fun s => noSlash_of_mem_segments (p := a)
  rw [hcol, List.append_assoc] at hs
  rcases List.mem_append.mp hs with hs | hs
  · rw [List.eq_of_mem_replicate hs] at hcs
    simp [dotdot] at hcs
    exact .inr (.inr (.inr hcs))
  rcases List.mem_append.mp hs with hs | hs
  · exact .inl (mem_of_mem_segments (hnames s hs).2 hcs).1
  · exact .inr (.inl (List.mem_singleton.mp hs ▸ hcs))

end Join

/-- The location that a path spells from a directory. -/
def location (here : Location) (p : Text) : Location :=
  follow (Disk.startOf here p) (segments p)

/-- A path with a name behind it spells the place of this name in the directory it spells. -/
theorem location_join (a : Text) {name : Text} (hn : IsName name) (here : Location) :
    location here (join a name) = location here a ++ [name] := by
  have hstart : Disk.startOf here (join a name) = Disk.startOf here a := by
    simp only [Disk.startOf, isAbsolute_join a hn]
  have hc := follow_collapse (!isAbsolute a) (fun s => noSlash_of_mem_segments (p := a))
    (Disk.startOf here a) (fun h => if_pos (by simpa using h))
  rw [location, hstart, segments_join a hn, follow_append, follow_concat, hn.enter, location,
    ← hc]
  split
  · rw [follow_cons, enter_nil, follow_nil]
  · rw [follow_nil]

theorem follow_ofSegments {here : Location} (hh : ∀ s ∈ here, IsName s) :
    follow [] (segments ('/' :: ofSegments here)) = here := by
  by_cases hne : here = []
  · simp [hne, segments, follow_cons]
  · rw [segments, if_pos rfl, segments_ofSegments hne fun s hs => (hh s hs).noSlash, follow_cons,
      enter_nil, follow_names hh, List.nil_append]

/-- The path denoted from a working directory is the location it spells, written out. -/
theorem resolve_eq {here : Location} (hh : ∀ s ∈ here, IsName s) (p : Text) :
    resolve ('/' :: ofSegments here) p = '/' :: ofSegments (location here p) := by
  have habs : isAbsolute ('/' :: ofSegments here) = true := rfl
  by_cases hdot : p = [] ∨ p = dot
  · have hp : location here p = here := by
      rcases hdot with rfl | rfl
      · simp [location, segments, Disk.startOf, isAbsolute, follow_cons]
      · have hd : Disk.startOf here dot = here := rfl
        rw [location, hd, segments_of_noSlash (by decide), follow_cons, enter_dot, follow_nil]
    rw [resolve, if_pos ⟨hdot, habs⟩, hp]
  have hslash : ∀ q : Text, ∀ s ∈ segments q, '/' ∉ s := fun q s => noSlash_of_mem_segments
  simp only [resolve, habs, hdot, false_and, if_false, Bool.or_true, Bool.not_true, if_true,
    collapse_false (hslash _)]
  rw [location, Disk.startOf]
  split
  · rfl
  · rw [segments_append, follow_append, follow_ofSegments hh]

end Path
end NodeReshape
