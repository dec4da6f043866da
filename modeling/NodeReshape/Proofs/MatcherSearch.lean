import Mathlib.Order.Bounds.Basic
import NodeReshape.Matcher
import NodeReshape.Proofs.DocumentCut
import NodeReshape.Proofs.UnitMatching

/-!
# Searching on from an offset

The rest of a document behind an offset has fragments of its own, also when the offset lies inside a
fragment of the document or inside a character. A matcher finds the first of them and then stands
behind it, where the others are the fragments of what is left. So a search that is repeated until it
fails lists the fragments of the rest, and leaves the matcher at the start.
-/
namespace NodeReshape

section Cuts

theorem dropUnits_zero (t : Text) : dropUnits 0 t = t := by cases t <;> rfl

theorem dropUnits_nil (start : ℕ) : dropUnits start [] = [] := by cases start <;> rfl

theorem dropUnits_eq_nil {start : ℕ} {t : Text} (h : units t ≤ start) : dropUnits start t = [] := by
  induction t generalizing start with
  | nil => exact dropUnits_nil start
  | cons c t ih =>
    have hc := width_pos c
    obtain ⟨n, rfl⟩ : ∃ n, start = n + 1 := Nat.exists_eq_add_one.mpr (by rw [units_cons] at h; omega)
    rw [units_cons] at h
    exact ih (by omega)

/-- A text that reaches the offset is cut there, whatever stands behind it. -/
theorem dropUnits_append {start : ℕ} {t : Text} (h : start ≤ units t) (behind : Text) :
    dropUnits start (t ++ behind) = dropUnits start t ++ behind := by
  induction t generalizing start with
  | nil =>
    obtain rfl : start = 0 := Nat.le_zero.mp h
    rw [dropUnits_zero, dropUnits_zero]
  | cons c t ih =>
    cases start with
    | zero => rfl
    | succ n =>
      rw [units_cons] at h
      exact ih (by omega)

/-- Behind an offset stand the units of the characters behind it. An offset inside a character has
the second half of this character in front of them. -/
theorem drop_toUnits (t : Text) (start : ℕ) :
    ∃ halves : List UInt16, (∀ u ∈ halves, isLow u = true) ∧
      (toUnits t).drop start = halves ++ toUnits (dropUnits start t) := by
  induction t generalizing start with
  | nil => exact ⟨[], by simp, by rw [dropUnits_nil]; exact List.drop_nil ..⟩
  | cons c t ih =>
    cases start with
    | zero => exact ⟨[], by simp, rfl⟩
    | succ n =>
      have hlen := length_unitsOf c
      rw [dropUnits, ← hlen, toUnits_cons]
      rcases unitsOf_cases c with ⟨u, he, -⟩ | ⟨u, v, he, -, hv, -⟩
      · rw [he]
        exact ih n
      · rw [he]
        cases n with
        | zero =>
          rw [show dropUnits (0 + 1 - [u, v].length) t = t from dropUnits_zero t]
          exact ⟨[v], by simpa using hv, rfl⟩
        | succ n =>
          rw [show n + 1 + 1 - [u, v].length = n by simp]
          exact ih n

end Cuts

/-- The fragments of what stands behind an offset, at their places in the document. -/
def fragmentsFrom (start : ℕ) (document : Text) : List Fragment :=
  scan 0 (units document - units (dropUnits start document)) (dropUnits start document)

theorem fragmentsFrom_units (before rest : Text) :
    fragmentsFrom (units before) (before ++ rest) = scan 0 (units before) rest := by
  rw [fragmentsFrom, dropUnits_units, units_append, Nat.add_sub_cancel]

/-- The first fragment of a text, the stretch in front of it and the fragments behind it. -/
theorem scan_eq_cons {t : Text} {offset : ℕ} {f : Fragment} {fs : List Fragment}
    (h : scan 0 offset t = f :: fs) :
    ∃ (gap : Text) (n : OldNode) (behind : Text), n.WellFormed ∧
      t = gap ++ (n.spelling ++ behind) ∧ f = n.fragment (offset + units gap) ∧
      fs = scan 0 f.stop behind := by
  induction t using document_induction generalizing offset with
  | empty => cases h
  | node n rest hn ih =>
    rw [scan_spelling hn] at h
    obtain ⟨rfl, rfl⟩ := List.cons.inj h
    exact ⟨[], n, rest, hn, rfl, rfl, rfl⟩
  | plain c t hr ih =>
    rw [scan_eq_of_read?_eq_none offset hr] at h
    obtain ⟨gap, n, behind, hn, rfl, hf, hfs⟩ := ih h
    exact ⟨c :: gap, n, behind, hn, rfl, by rw [hf, units_cons, Nat.add_assoc], hfs⟩

/-- Behind the first of these fragments come the others. -/
theorem fragmentsFrom_stop {start : ℕ} {document : Text} {f : Fragment} {fs : List Fragment}
    (h : fragmentsFrom start document = f :: fs) : fragmentsFrom f.stop document = fs := by
  obtain ⟨gap, n, behind, -, ht, hf, rfl⟩ := scan_eq_cons h
  have hcut := takeUnits_append_dropUnits start document
  have hbefore : units document = units (takeUnits start document) +
      units (dropUnits start document) := by rw [← units_append, hcut]
  have hdocument : document = (takeUnits start document ++ (gap ++ n.spelling)) ++ behind := by
    rw [List.append_assoc, List.append_assoc gap, ← ht, hcut]
  have hstop : f.stop = units (takeUnits start document ++ (gap ++ n.spelling)) := by
    rw [hf, OldNode.stop_fragment, hbefore, Nat.add_sub_cancel, units_append, units_append,
      Nat.add_assoc]
  generalize takeUnits start document = before at hdocument hstop
  rw [hstop, hdocument]
  exact fragmentsFrom_units _ _

/-- A node that begins behind an offset lies in the rest of the document. -/
theorem OccursAt.mem_rest {document : Text} {index start : ℕ} {n : OldNode}
    (h : OccursAt document index n) (hs : start ≤ index) :
    ∃ a behind, dropUnits start document = a ++ (n.spelling ++ behind) ∧
      index = units document - units (dropUnits start document) + units a := by
  obtain ⟨-, before, behind, rfl, rfl⟩ := h
  refine ⟨dropUnits start before, behind, dropUnits_append hs _, ?_⟩
  have hcut := congrArg units (takeUnits_append_dropUnits start before)
  rw [dropUnits_append hs]
  simp only [units_append] at hcut ⊢
  omega

/-- Every node that begins behind an offset begins in one of the fragments from there, or behind it. -/
theorem exists_mem_fragmentsFrom {document : Text} {index start : ℕ} {n : OldNode}
    (h : OccursAt document index n) (hs : start ≤ index) :
    ∃ f ∈ fragmentsFrom start document, f.index ≤ index := by
  obtain ⟨a, behind, hrest, hindex⟩ := h.mem_rest hs
  obtain ⟨f, hf, hle, -⟩ := scan_covers h.1 a behind
    (units document - units (dropUnits start document))
  rw [← hindex] at hle
  rw [← hrest] at hf
  exact ⟨f, hf, hle⟩

/-- The rest of a document begins at the offset or, where this is inside a character, right behind. -/
theorem units_rest {start : ℕ} {document : Text} {halves : List UInt16}
    (hdrop : (toUnits document).drop start = halves ++ toUnits (dropUnits start document))
    (hs : start ≤ units document) :
    units document - units (dropUnits start document) = 0 + halves.length + start := by
  have hlen := congrArg List.length hdrop
  rw [List.length_drop, List.length_append, length_toUnits, length_toUnits] at hlen
  omega

theorem fragmentsFrom_eq_nil {start : ℕ} {document : Text} (h : units document ≤ start) :
    fragmentsFrom start document = [] := by
  rw [fragmentsFrom, dropUnits_eq_nil h]
  rfl

theorem start_le_of_mem_fragmentsFrom {start : ℕ} {document : Text} {f : Fragment}
    (hf : f ∈ fragmentsFrom start document) : start ≤ f.index := by
  have hindex := le_index_of_mem_scan hf
  rcases Nat.le_total start (units document) with hs | hs
  · obtain ⟨halves, -, hdrop⟩ := drop_toUnits document start
    rw [units_rest hdrop hs] at hindex
    omega
  · rw [fragmentsFrom_eq_nil hs] at hf
    simp at hf

theorem occursAt_of_mem_fragmentsFrom {start : ℕ} {document : Text} {f : Fragment}
    (hf : f ∈ fragmentsFrom start document) :
    ∃ n, OccursAt document f.index n ∧ f = n.fragment f.index := by
  obtain ⟨before, n, behind, hn, ht, rfl⟩ := mem_scan hf
  have hcut := takeUnits_append_dropUnits start document
  have hunits := congrArg units hcut
  rw [units_append] at hunits
  refine ⟨n, ⟨hn, takeUnits start document ++ before, behind, ?_, ?_⟩, rfl⟩
  · rw [List.append_assoc, ← ht, hcut]
  · rw [units_append, OldNode.index_fragment]
    omega

/-- What a search from an offset finds: the first of all nodes that begin there or behind, which
may overlap, or nothing when there is none. The matcher then stands behind the node, or at the
start. -/
inductive FindsNext (document : Text) (start : ℕ) : Option Fragment → Matcher → Prop
  | found (f : Fragment) (n : OldNode) (occurs : OccursAt document f.index n)
    (fragment : f = n.fragment f.index)
    (least : IsLeast {i | start ≤ i ∧ ∃ m, OccursAt document i m} f.index) :
    FindsNext document start (some f) ⟨f.stop⟩
  | nothing (nowhere : ∀ i m, OccursAt document i m → i < start) :
    FindsNext document start none ⟨0⟩

/-- A search is repeated until it fails. These are its answers, and the matcher is left like this. -/
inductive UntilFailure {α : Type} (search : Matcher → Option α × Matcher) :
    Matcher → List α → Matcher → Prop
  | fails {m after : Matcher} (failed : search m = (none, after)) : UntilFailure search m [] after
  | finds {m next after : Matcher} {a : α} {as : List α} (found : search m = (some a, next))
    (rest : UntilFailure search next as after) : UntilFailure search m (a :: as) after

theorem UntilFailure.unique {α : Type} {search : Matcher → Option α × Matcher}
    {m after after' : Matcher} {as as' : List α} (h : UntilFailure search m as after)
    (h' : UntilFailure search m as' after') : as = as' ∧ after = after' := by
  induction h generalizing as' with
  | fails failed =>
    cases h' with
    | fails failed' => exact ⟨rfl, (Prod.mk.inj (failed.symm.trans failed')).2⟩
    | finds found' => cases failed.symm.trans found'
  | finds found rest ih =>
    cases h' with
    | fails failed' => cases found.symm.trans failed'
    | finds found' rest' =>
      cases found.symm.trans found'
      obtain ⟨rfl, rfl⟩ := ih rest'
      exact ⟨rfl, rfl⟩

namespace Matcher

variable {m : Matcher} {document : Text}

theorem firstFragment?_eq (t : Text) (offset : ℕ) :
    firstFragment? offset t = (scan 0 offset t).head? := by
  induction t generalizing offset with
  | nil => rfl
  | cons c t ih =>
    rw [firstFragment?, scan]
    cases OldNode.read? (c :: t) with
    | none => exact ih _
    | some r => rfl

theorem fragmentFrom?_eq (start : ℕ) (document : Text) :
    fragmentFrom? start document = (fragmentsFrom start document).head? := by
  rw [fragmentFrom?]
  split
  · rw [fragmentsFrom_eq_nil (by omega)]
    rfl
  · exact firstFragment?_eq _ _

theorem exec_of_nil (h : fragmentsFrom m.lastIndex document = []) :
    m.exec document = (none, ⟨0⟩) := by
  rw [exec, fragmentFrom?_eq, h]
  rfl

theorem exec_of_cons {f : Fragment} {fs : List Fragment}
    (h : fragmentsFrom m.lastIndex document = f :: fs) :
    m.exec document = (some f, ⟨f.stop⟩) := by
  rw [exec, fragmentFrom?_eq, h]
  rfl

theorem test_eq (m : Matcher) (document : Text) :
    m.test document = ((m.exec document).1.isSome, (m.exec document).2) := rfl

/-- A test as a search: where it succeeds it shows the place the matcher moves to. -/
def testedStop (m : Matcher) (document : Text) : Option ℕ × Matcher :=
  (if (m.test document).1 then some (m.test document).2.lastIndex else none, (m.test document).2)

theorem findsNext_exec (m : Matcher) (document : Text) :
    FindsNext document m.lastIndex (m.exec document).1 (m.exec document).2 := by
  cases hfs : fragmentsFrom m.lastIndex document with
  | nil =>
    rw [exec_of_nil hfs]
    refine .nothing fun i n hn => ?_
    by_contra hi
    obtain ⟨f, hf, -⟩ := exists_mem_fragmentsFrom hn (Nat.le_of_not_lt hi)
    rw [hfs] at hf
    simp at hf
  | cons f fs =>
    have hf : f ∈ fragmentsFrom m.lastIndex document := hfs ▸ List.mem_cons_self
    obtain ⟨n, hn, he⟩ := occursAt_of_mem_fragmentsFrom hf
    rw [exec_of_cons hfs]
    refine .found f n hn he ⟨⟨start_le_of_mem_fragmentsFrom hf, n, hn⟩, ?_⟩
    rintro i ⟨hi, n', hn'⟩
    obtain ⟨g, hg, hle⟩ := exists_mem_fragmentsFrom hn' hi
    rw [hfs] at hg
    rcases List.mem_cons.mp hg with rfl | hg
    · exact hle
    · have hapart := scan_pairwise (dropUnits m.lastIndex document)
        (units document - units (dropUnits m.lastIndex document))
      rw [← fragmentsFrom, hfs] at hapart
      have hstop : f.index ≤ f.stop := Nat.le_add_right _ _
      exact (hstop.trans (List.rel_of_pairwise_cons hapart hg)).trans hle

theorem untilFailure_exec (m : Matcher) (document : Text) :
    UntilFailure (exec · document) m (fragmentsFrom m.lastIndex document) ⟨0⟩ := by
  generalize hfs : fragmentsFrom m.lastIndex document = fs
  induction fs generalizing m with
  | nil => exact .fails (exec_of_nil hfs)
  | cons f fs ih => exact .finds (exec_of_cons hfs) (ih ⟨f.stop⟩ (fragmentsFrom_stop hfs))

theorem testedStop_of_nil (h : fragmentsFrom m.lastIndex document = []) :
    m.testedStop document = (none, ⟨0⟩) := by
  rw [testedStop, test_eq, exec_of_nil h]
  rfl

theorem testedStop_of_cons {f : Fragment} {fs : List Fragment}
    (h : fragmentsFrom m.lastIndex document = f :: fs) :
    m.testedStop document = (some f.stop, ⟨f.stop⟩) := by
  rw [testedStop, test_eq, exec_of_cons h]
  rfl

theorem untilFailure_test (m : Matcher) (document : Text) :
    UntilFailure (testedStop · document) m
      ((fragmentsFrom m.lastIndex document).map Fragment.stop) ⟨0⟩ := by
  generalize hfs : fragmentsFrom m.lastIndex document = fs
  induction fs generalizing m with
  | nil => exact .fails (testedStop_of_nil hfs)
  | cons f fs ih => exact .finds (testedStop_of_cons hfs) (ih ⟨f.stop⟩ (fragmentsFrom_stop hfs))

end Matcher

/-- The node further back in a longer unit text. -/
def UnitFragment.moved (distance : ℕ) (f : UnitFragment) : UnitFragment :=
  { f with index := f.index + distance }

@[simp] theorem UnitFragment.index_moved (distance : ℕ) (f : UnitFragment) :
    (f.moved distance).index = f.index + distance := rfl

@[simp] theorem UnitFragment.stop_moved (distance : ℕ) (f : UnitFragment) :
    (f.moved distance).stop = f.stop + distance := Nat.add_right_comm ..

theorem inUnits_moved (distance : ℕ) (f : Fragment) :
    (f.moved distance).inUnits = f.inUnits.moved distance := rfl

theorem unitMatchesFrom_halves {halves : List UInt16} (h : ∀ u ∈ halves, isLow u = true)
    (offset : ℕ) (us : List UInt16) :
    unitMatchesFrom 0 offset (halves ++ us) = unitMatchesFrom 0 (offset + halves.length) us := by
  induction halves generalizing offset with
  | nil => rfl
  | cons v halves ih =>
    have hv := choices_of_isLow (h v List.mem_cons_self) (halves ++ us)
    rw [List.cons_append, unitMatchesFrom_skip offset hv,
      ih (fun u hu => h u (List.mem_cons_of_mem _ hu)), List.length_cons, Nat.add_assoc,
      Nat.add_comm 1]

/-- The fragments from an offset are those of the units behind it, moved to their places. -/
theorem inUnits_fragmentsFrom (start : ℕ) (document : Text) :
    (fragmentsFrom start document).map Fragment.inUnits =
      (findUnitFragments ((toUnits document).drop start)).map (UnitFragment.moved start) := by
  obtain ⟨halves, hlow, hdrop⟩ := drop_toUnits document start
  rcases Nat.le_total start (units document) with hs | hs
  · rw [hdrop, findUnitFragments, unitMatches, unitMatchesFrom_halves hlow,
      map_fragment_unitMatchesFrom, fragmentsFrom, units_rest hdrop hs, scan_add, List.map_map,
      List.map_map]
    exact List.map_congr_left fun f _ => inUnits_moved start f
  · rw [fragmentsFrom_eq_nil hs, List.drop_eq_nil_of_le (by rwa [length_toUnits])]
    rfl

/-- A matcher finds the first node from its place on, whether it is asked for the node or only
whether there is one. Asked again and again until it fails, it gives the fragments of the units behind
its first place, moved by this place, and it is left at the start. A place between two characters has
the fragments of the text behind it. -/
theorem exec_untilFailure (m : Matcher) (document : Text) :
    FindsNext document m.lastIndex (m.exec document).1 (m.exec document).2 ∧
      m.test document = ((m.exec document).1.isSome, (m.exec document).2) ∧
      ∃ fs,
        (∀ found after, UntilFailure (Matcher.exec · document) m found after ↔
          found = fs ∧ after = ⟨0⟩) ∧
        (∀ stops after, UntilFailure (Matcher.testedStop · document) m stops after ↔
          stops = fs.map Fragment.stop ∧ after = ⟨0⟩) ∧
        fs.map Fragment.inUnits = (findUnitFragments ((toUnits document).drop m.lastIndex)).map
          (UnitFragment.moved m.lastIndex) ∧
        ∀ before rest, document = before ++ rest → m.lastIndex = units before →
          fs = (findFragments rest).map (Fragment.moved (units before)) := by
  refine ⟨m.findsNext_exec document, m.test_eq document, fragmentsFrom m.lastIndex document,
    fun found after => ?_, fun stops after => ?_, inUnits_fragmentsFrom m.lastIndex document, ?_⟩
  · constructor
    · exact fun h => h.unique (m.untilFailure_exec document)
    · rintro ⟨rfl, rfl⟩
      exact m.untilFailure_exec document
  · constructor
    · exact fun h => h.unique (m.untilFailure_test document)
    · rintro ⟨rfl, rfl⟩
      exact m.untilFailure_test document
  · rintro before rest rfl hplace
    rw [hplace, fragmentsFrom_units, findFragments, ← scan_add, Nat.zero_add]

end NodeReshape
