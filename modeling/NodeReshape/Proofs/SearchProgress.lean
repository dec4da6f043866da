import NodeReshape.Proofs.MatcherSearch
import NodeReshape.Proofs.NodeFrame

/-!
# How far a search moves on

The keys, quotes and parentheses of a node take 21 units, and no capture is empty. So a search that
succeeds leaves the matcher at least 26 units further on, and still inside the document: repeating
it must fail in the end, and a document has no more fragments than stretches of 26 units.
-/
namespace NodeReshape

namespace OldNode

/-- The sizes of a node add up: what is not a capture or a gap takes 21 units. -/
theorem units_spelling (n : OldNode) : units n.spelling =
    21 + (units n.nameEntry.gap + units n.nameEntry.valueGap + units n.tyEntry.gap +
      units n.tyEntry.valueGap + units n.innerGap + units n.innerValueGap) +
        units n.name + units n.ty + units n.inner := by
  have hname : units nameKey = 5 := by decide
  have hty : units tyKey = 3 := by decide
  have hinner : units innerKey = 6 := by decide
  have hcomma : width ',' = 1 := rfl
  rw [spelling_eq_write, Frame.units_write]
  simp only [frame, units_append, units_cons, units_nil, hname, hty, hinner, hcomma]
  omega

end OldNode

theorem units_pos {t : Text} (h : t ≠ []) : 1 ≤ units t := by
  have hlength := List.length_pos_iff.mpr h
  exact hlength.trans_le (length_le_units t)

/-- The sizes of a fragment are not below those of the shortest node. -/
structure Fragment.Sized (f : Fragment) : Prop where
  name : 1 ≤ units f.name
  ty : 1 ≤ units f.ty
  inner : 3 ≤ units f.inner
  length : 21 + units f.name + units f.ty + units f.inner ≤ f.length

theorem Fragment.Sized.le_length {f : Fragment} (h : f.Sized) : 26 ≤ f.length := by
  obtain ⟨hname, hty, hinner, hlength⟩ := h
  omega

theorem OldNode.sized {n : OldNode} (hn : n.WellFormed) (index : ℕ) : (n.fragment index).Sized where
  name := units_pos hn.nameEntry.value
  ty := units_pos hn.tyEntry.value
  inner := by
    have hbody := units_pos hn.body
    have hopened : width '(' = 1 := rfl
    have hclosed : width ')' = 1 := rfl
    simp only [OldNode.fragment, OldNode.inner, units_cons, units_append, units_nil, hopened,
      hclosed]
    omega
  length := by
    have hsum := n.units_spelling
    simp only [OldNode.fragment]
    omega

theorem OccursAt.sized {document : Text} {f : Fragment} {n : OldNode}
    (h : OccursAt document f.index n) (he : f = n.fragment f.index) : f.Sized := by
  rw [he]
  exact OldNode.sized h.1 f.index

/-- What a search that succeeds does to a matcher: it stands behind the fragment found, which lies
between its old place and the end of the document. -/
structure Matcher.MovesOver (document : Text) (m : Matcher) (f : Fragment) (next : Matcher) :
    Prop where
  sized : f.Sized
  stops : next.lastIndex = f.stop
  forward : m.lastIndex + 26 ≤ next.lastIndex
  inside : next.lastIndex ≤ units document

theorem Matcher.exec_movesOver {document : Text} {m next : Matcher} {f : Fragment}
    (h : m.exec document = (some f, next)) : m.MovesOver document f next := by
  cases hfs : fragmentsFrom m.lastIndex document with
  | nil => simp [exec_of_nil hfs] at h
  | cons g gs =>
    rw [exec_of_cons hfs, Prod.mk.injEq, Option.some.injEq] at h
    obtain ⟨rfl, rfl⟩ := h
    have hg : g ∈ fragmentsFrom m.lastIndex document := hfs ▸ List.mem_cons_self
    have hstart := start_le_of_mem_fragmentsFrom hg
    obtain ⟨n, hn, he⟩ := occursAt_of_mem_fragmentsFrom hg
    have hsized := hn.sized he
    have hlength := hsized.le_length
    have hinside := hn.stop_le_units
    rw [← he] at hinside
    refine ⟨hsized, rfl, ?_, hinside⟩
    change m.lastIndex + 26 ≤ g.index + g.length
    omega

/-- Each success takes 26 units of what lies behind the matcher. -/
theorem UntilFailure.length_le {document : Text} {m after : Matcher} {fs : List Fragment}
    (h : UntilFailure (Matcher.exec · document) m fs after) :
    26 * fs.length ≤ units document - m.lastIndex := by
  induction h with
  | fails => simp
  | finds found _ ih =>
    obtain ⟨-, -, hforward, hinside⟩ := Matcher.exec_movesOver found
    rw [List.length_cons]
    omega

theorem fragmentsFrom_zero (document : Text) : fragmentsFrom 0 document = findFragments document :=
  fragmentsFrom_units [] document

/-- A new matcher lists the fragments of a document. -/
theorem Matcher.untilFailure_new (document : Text) :
    UntilFailure (Matcher.exec · document) Matcher.new (findFragments document) ⟨0⟩ := by
  have hnew := Matcher.untilFailure_exec Matcher.new document
  rwa [Matcher.new, fragmentsFrom_zero] at hnew

/-- There is one fragment for every 26 units of a document at most. -/
theorem length_findFragments_le (document : Text) :
    26 * (findFragments document).length ≤ units document :=
  (Matcher.untilFailure_new document).length_le

/-- Every search that succeeds moves the matcher on by 26 units at least, not beyond the end of the
document. So a search that is repeated ends from wherever it begins; from the start it lists the
fragments of the document, and there is one for every 26 units at most. -/
theorem exec_progress (document : Text) :
    (∀ m f next, Matcher.exec m document = (some f, next) → m.MovesOver document f next) ∧
      (∀ m, ∃ found, UntilFailure (Matcher.exec · document) m found ⟨0⟩ ∧
        26 * found.length ≤ units document - m.lastIndex) ∧
      UntilFailure (Matcher.exec · document) Matcher.new (findFragments document) ⟨0⟩ ∧
      (∀ f ∈ findFragments document, f.Sized) ∧
      26 * (findFragments document).length ≤ units document := by
  refine ⟨fun m f next h => Matcher.exec_movesOver h, fun m => ?_,
    Matcher.untilFailure_new document, fun f hf => ?_, length_findFragments_le document⟩
  · have hends := m.untilFailure_exec document
    exact ⟨_, hends, hends.length_le⟩
  · obtain ⟨n, hn, he⟩ := occursAt_of_mem_findFragments hf
    exact hn.sized he

/-- Two of the shortest nodes, one right behind the other. -/
def shortestNodes : Text :=
  "(name:\"a\",ty:\"b\",inner:(1)(name:\"c\",ty:\"d\",inner:(2)".toList

/-- They are found in searches that move on by 26 units each, up to the end. -/
theorem exec_progress_shortest :
    ∃ f, Matcher.exec ⟨26⟩ shortestNodes = (some f, ⟨52⟩) ∧ units shortestNodes = 52 ∧
      (⟨26⟩ : Matcher).MovesOver shortestNodes f ⟨52⟩ ∧
      (findFragments shortestNodes).length = 2 ∧ 26 * 2 ≤ units shortestNodes := by
  have hexec : Matcher.exec ⟨26⟩ shortestNodes =
      (some ⟨"c".toList, "d".toList, "(2)".toList, 26, 26⟩, ⟨52⟩) := by decide
  have hlength : (findFragments shortestNodes).length = 2 := by decide
  obtain ⟨hmoves, -, -, -, hbound⟩ := exec_progress shortestNodes
  rw [hlength] at hbound
  exact ⟨_, hexec, by decide, hmoves _ _ _ hexec, hlength, hbound⟩

end NodeReshape
