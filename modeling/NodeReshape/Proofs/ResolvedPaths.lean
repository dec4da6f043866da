import NodeReshape.Proofs.PathLocation
import NodeReshape.Proofs.SettingFaults

/-!
# Names put behind a resolved path

A directory is compared by the path it denotes from the working directory, and its files are
reached through a joined path. Joining shortens the directory before it is resolved; segments that
are shortened already come out the same once more. So the file's path is the path of the directory
and one segment more, and directories that differ have no path of a file in common.
-/
namespace NodeReshape
namespace Path

/-- Shortened segments lead from anywhere to where the segments themselves lead. From the root
they may be shortened as segments that cannot leave it. -/
theorem foldl_push_collapse {above above' : Bool} {segs : List Text} (hs : ∀ s ∈ segs, '/' ∉ s)
    (made : List Text) (hroot : above' = false → above = false ∧ made = []) :
    (collapse above' segs).foldl (push above) made = segs.foldl (push above) made := by
  induction segs using List.reverseRecOn with
  | nil => rfl
  | append_singleton front s ih =>
    have hfront : ∀ t ∈ front, '/' ∉ t := fun t ht => hs t (List.mem_append_left _ ht)
    have hi := ih hfront
    rw [List.foldl_append, List.foldl_cons, List.foldl_nil, ← hi]
    rcases segment_cases s with hskip | rfl | hn
    · rw [collapse_skip _ hskip, push_skip _ _ hskip]
    · rcases collapse_dotdot above' hfront with
        ⟨habove, hc, hup⟩ | hup | ⟨kept, last, hlast, hc, hup⟩
      · obtain ⟨rfl, rfl⟩ := hroot habove
        rw [hc, hup]
        rfl
      · rw [hup, List.foldl_append]
        rfl
      · rw [hc, hup, List.foldl_append, List.foldl_cons, List.foldl_nil, push_name _ _ hlast,
          push_dotdot_name _ _ hlast.ne_dotdot]
    · rw [collapse_name _ ⟨hn, hs s (by simp)⟩, List.foldl_append]
      rfl

theorem collapse_append (above : Bool) (front segs : List Text) :
    collapse above (front ++ segs) =
      (segs.foldl (push above) (front.foldl (push above) [])).reverse := by
  rw [collapse, List.foldl_append]

theorem collapse_append_collapse (above : Bool) (front : List Text) {segs : List Text}
    (hs : ∀ s ∈ segs, '/' ∉ s) :
    collapse above (front ++ collapse true segs) = collapse above (front ++ segs) := by
  rw [collapse_append, foldl_push_collapse hs _ (by simp), ← collapse_append]

theorem collapse_collapse_root {segs : List Text} (hs : ∀ s ∈ segs, '/' ∉ s) :
    collapse false (collapse false segs) = collapse false segs := by
  have h := @foldl_push_collapse false false _ hs [] fun _ => ⟨rfl, rfl⟩
  exact congrArg List.reverse h

/-- A segment of a shortened path says something: it is not empty and no dot. -/
theorem collapse_ne_dot {above : Bool} {segs : List Text} {s : Text}
    (hs : ∀ s ∈ segs, '/' ∉ s) (h : s ∈ collapse above segs) : s ≠ dot := by
  obtain ⟨up, names, hc, hn, -, -⟩ := exists_shortens above hs
  rw [hc] at h
  rcases List.mem_append.mp h with h | h
  · rw [List.eq_of_mem_replicate h]
    decide
  · exact (hn s h).1.ne_dot

/-- A path in its shortest spelling. -/
def spell (absolute : Bool) (segs : List Text) : Text :=
  if absolute then '/' :: ofSegments segs
  else if ofSegments segs = [] then dot else ofSegments segs

/-- A path in its shortest spelling with one more segment. -/
def child (p name : Text) : Text :=
  if p = ['/'] then '/' :: name else if p = dot then name else p ++ '/' :: name

section Spell

variable {segs : List Text}

theorem ofSegments_eq_nil_iff (h : ∀ s ∈ segs, s ≠ [] ∧ '/' ∉ s) :
    ofSegments segs = [] ↔ segs = [] := by
  refine ⟨fun he => ?_, fun he => by rw [he, ofSegments_nil]⟩
  by_contra hne
  have hs := segments_ofSegments hne fun s hm => (h s hm).2
  rw [he] at hs
  exact (h [] (by rw [← hs]; exact List.mem_singleton_self _)).1 rfl

theorem child_spell (absolute : Bool) (h : ∀ s ∈ segs, s ≠ [] ∧ '/' ∉ s) (hdot : dot ∉ segs)
    {name : Text} (hname : name ≠ []) :
    child (spell absolute segs) name = spell absolute (segs ++ [name]) := by
  by_cases hne : segs = []
  · cases absolute <;> simp [hne, child, spell, dot, hname]
  have hbody := mt (ofSegments_eq_nil_iff h).mp hne
  have hcat := ofSegments_concat name hne
  cases absolute with
  | true => simp [child, spell, hbody, hcat, dot]
  | false =>
    have hroot : ofSegments segs ≠ ['/'] := by
      intro he
      have habs := isAbsolute_ofSegments h
      rw [he] at habs
      simp [isAbsolute] at habs
    have hstay : ofSegments segs ≠ dot := by
      intro he
      have hs := segments_ofSegments hne fun s hm => (h s hm).2
      rw [he, segments_of_noSlash (by decide)] at hs
      exact hdot (by rw [← hs]; exact List.mem_singleton_self _)
    simp [child, spell, hbody, hcat, hroot, hstay]

theorem segments_spell (absolute : Bool) (hne : segs ≠ []) (h : ∀ s ∈ segs, s ≠ [] ∧ '/' ∉ s) :
    segments (spell absolute segs) = (if absolute then [[]] else []) ++ segs := by
  have hbody := segments_ofSegments hne fun s hs => (h s hs).2
  have hnil := mt (ofSegments_eq_nil_iff h).mp hne
  cases absolute with
  | true => simp [spell, segments, hbody]
  | false => simp [spell, hnil, hbody]

/-- The spelling of a path with a name at its end tells the segments in front of the name. -/
theorem spell_concat_inj {a a' : Bool} {segs' : List Text} {n n' : Text}
    (h : ∀ s ∈ segs ++ [n], s ≠ [] ∧ '/' ∉ s) (h' : ∀ s ∈ segs' ++ [n'], s ≠ [] ∧ '/' ∉ s)
    (he : spell a (segs ++ [n]) = spell a' (segs' ++ [n'])) : a = a' ∧ segs = segs' := by
  have hs := congrArg segments he
  rw [segments_spell a (by simp) h, segments_spell a' (by simp) h'] at hs
  -- Only an absolute path has an empty segment, in front of all others.
  have hroot : ∀ {l : List Text}, (∀ s ∈ l, s ≠ [] ∧ '/' ∉ s) → ∀ l', [] :: l' ≠ l := by
    rintro _ hl l' rfl
    exact (hl [] List.mem_cons_self).1 rfl
  cases a <;> cases a'
  · have hs : segs ++ [n] = segs' ++ [n'] := hs
    exact ⟨rfl, (List.append_inj' hs rfl).1⟩
  · exact absurd hs.symm (hroot h _)
  · exact absurd hs (hroot h' _)
  · have hs : segs ++ [n] = segs' ++ [n'] := (List.cons.inj hs).2
    exact ⟨rfl, (List.append_inj' hs rfl).1⟩

end Spell

section Resolved

variable {wd p name : Text}

/-- Whether the path denoted from a working directory is absolute. -/
def fromRoot (workingDirectory p : Text) : Bool := isAbsolute p || isAbsolute workingDirectory

/-- The segments of the path denoted from a working directory. -/
def resolved (workingDirectory p : Text) : List Text :=
  collapse (!fromRoot workingDirectory p)
    (segments (if isAbsolute p then p else workingDirectory ++ '/' :: p))

theorem of_mem_resolved {s : Text} (h : s ∈ resolved wd p) : s ≠ [] ∧ '/' ∉ s :=
  of_mem_collapse h

theorem dot_notMem_resolved : dot ∉ resolved wd p :=
  fun h => collapse_ne_dot (fun _ => noSlash_of_mem_segments) h rfl

/-- The text of a working directory. A system reports a path from the root in its shortest spelling:
no dots, no slash twice, none at the end. -/
def IsWorkingDirectory (wd : Text) : Prop := isAbsolute wd = true → resolve wd wd = wd

/-- The names on the way from the root, written out, are such a text. -/
theorem isWorkingDirectory_ofSegments {here : Location} (hh : ∀ s ∈ here, IsName s) :
    IsWorkingDirectory ('/' :: ofSegments here) := by
  intro habs
  rw [resolve_eq hh, location, Disk.startOf, if_pos habs, follow_ofSegments hh]

theorem resolve_eq_spell (hwd : IsWorkingDirectory wd) (p : Text) :
    resolve wd p = spell (fromRoot wd p) (resolved wd p) := by
  by_cases hstay : (p = [] ∨ p = dot) ∧ isAbsolute wd = true
  · obtain ⟨hp, habs⟩ := hstay
    have hrel : isAbsolute p = false := by rcases hp with rfl | rfl <;> rfl
    have hself : ¬ (wd = [] ∨ wd = dot) := by
      rintro (rfl | rfl) <;> simp [isAbsolute, dot] at habs
    have hsegs : segments (wd ++ '/' :: p) = segments wd ++ [p] := by
      rw [segments_append, segments_of_noSlash (s := p) (by rcases hp with rfl | rfl <;> decide)]
    have hshort : '/' :: ofSegments (collapse false (segments wd)) = wd := by
      simpa [resolve, hself, habs] using hwd habs
    simp [resolve, hp, habs, hrel, spell, fromRoot, resolved, hsegs, collapse_skip false hp,
      hshort]
  · rw [resolve, if_neg hstay]
    rfl

theorem fromRoot_join (d : Text) (hn : IsName name) : fromRoot wd (join d name) = fromRoot wd d := by
  rw [fromRoot, isAbsolute_join d hn, fromRoot]

theorem resolved_join (d : Text) (hn : IsName name) :
    resolved wd (join d name) = resolved wd d ++ [name] := by
  have hd : ∀ s ∈ segments d, '/' ∉ s := fun _ => noSlash_of_mem_segments
  rw [resolved, fromRoot_join d hn, isAbsolute_join d hn, resolved]
  cases habs : isAbsolute d with
  | true =>
    have hroot : ∀ segs, collapse false ([] :: segs) = collapse false segs := fun _ => rfl
    simp [fromRoot, segments_join d hn, habs, hroot, collapse_name false hn,
      collapse_collapse_root hd]
  | false =>
    simp only [Bool.false_eq_true, if_false, segments_append, segments_join d hn, habs,
      Bool.not_false, List.nil_append]
    rw [← List.append_assoc, collapse_name _ hn, collapse_append_collapse _ _ hd]

theorem resolve_join (hwd : IsWorkingDirectory wd) (d : Text) (hn : IsName name) :
    resolve wd (join d name) = child (resolve wd d) name := by
  rw [resolve_eq_spell hwd, fromRoot_join d hn, resolved_join d hn, resolve_eq_spell hwd,
    child_spell _ (fun _ => of_mem_resolved) dot_notMem_resolved hn.ne_nil]

/-- Paths with a name at their end are the same only in the same directory. -/
theorem resolve_eq_of_resolve_join_eq (hwd : IsWorkingDirectory wd) {d d' name' : Text}
    (hn : IsName name) (hn' : IsName name')
    (h : resolve wd (join d name) = resolve wd (join d' name')) : resolve wd d = resolve wd d' := by
  have hseg : ∀ {d n : Text}, IsName n → ∀ s ∈ resolved wd d ++ [n], s ≠ [] ∧ '/' ∉ s := by
    intro d n hn s hs
    rw [← resolved_join d hn] at hs
    exact of_mem_resolved hs
  rw [resolve_eq_spell hwd, resolve_eq_spell hwd, fromRoot_join d hn, fromRoot_join d' hn',
    resolved_join d hn, resolved_join d' hn'] at h
  obtain ⟨hroot, hsegs⟩ := spell_concat_inj (hseg hn) (hseg hn') h
  rw [resolve_eq_spell hwd, resolve_eq_spell hwd, hroot, hsegs]

end Resolved

open Config in
/-- A name joined to a directory is one more segment behind what the directory denotes, however it
is spelled. So no input path of an accepted configuration is the path of an output. -/
theorem resolve_join_apart (wd : Text) (hwd : IsWorkingDirectory wd) :
    (∀ d name, IsName name → resolve wd (join d name) = child (resolve wd d) name) ∧
      ∀ source c, resolveConfig wd source = .ok c → ∀ n m, IsName n → IsName m →
        resolve wd (join c.inputDir n) ≠ resolve wd (join c.outputDir m) := by
  refine ⟨fun d _ hn => resolve_join hwd d hn, fun source c hc n m hn hm he => ?_⟩
  have hsame := resolve_eq_of_resolve_join_eq hwd hn hm he
  have hapart := sameDirectory_of_resolveConfig hc
  rw [sameDirectory, hsame] at hapart
  simp at hapart

open Config in
/-- Directories with detours, from a directory one entry below the root. -/
theorem resolve_join_apart_detours :
    let wd := "/w".toList
    let c : Config := ⟨"graphs/../old/".toList, "//w/./new".toList, ".ron".toList⟩
    IsWorkingDirectory wd ∧ resolveConfig wd (.entries c.assignments) = .ok c ∧
      IsName "a.ron".toList ∧
      resolve wd (join c.inputDir "a.ron".toList) =
        child (resolve wd c.inputDir) "a.ron".toList ∧
      resolve wd (join c.inputDir "a.ron".toList) ≠ resolve wd (join c.outputDir "a.ron".toList) := by
  intro wd c
  have hname : IsName "a.ron".toList := ⟨⟨by decide, by decide, by decide⟩, by decide⟩
  have hhere : IsName "w".toList := ⟨⟨by decide, by decide, by decide⟩, by decide⟩
  have hwd : IsWorkingDirectory wd :=
    @isWorkingDirectory_ofSegments ["w".toList] (List.forall_mem_singleton.mpr hhere)
  have hc : resolveConfig wd (.entries c.assignments) = .ok c := by rfl
  obtain ⟨hjoin, hapart⟩ := resolve_join_apart wd hwd
  exact ⟨hwd, hc, hname, hjoin _ _ hname, hapart _ c hc _ _ hname hname⟩

end Path
end NodeReshape
