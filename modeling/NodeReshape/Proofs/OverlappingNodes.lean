import Mathlib.Combinatorics.Enumerative.DoubleCounting
import Mathlib.Order.Bounds.Basic
import NodeReshape.Proofs.FragmentSearch
import NodeReshape.Proofs.PendingNode

/-!
# Nodes that overlap

A node that is still open where another one begins is complete by the end of the other one. It
waits for its closing parenthesis there, or for quotes of which the other node brings enough. So
of two overlapping nodes the one that begins first does not end last, and taking the leftmost
node each time leaves as much room as any other choice.
-/
namespace NodeReshape

open Pattern

namespace OldNode

/-- What has started in front of a node does not read on behind it. -/
theorem alike_spelling {m : OldNode} (hm : m.WellFormed) (r r' : Text) :
    Alike atName (m.spelling ++ r) (m.spelling ++ r') := by
  rw [spelling_eq_write]
  exact alike_in_frames hm (neat_frame hm) (neat_frame hm) r r'

/-- A node that begins in front of another one lies within the text up to the end of that one. -/
theorem spelling_isPrefix {n m : OldNode} {c : Char} {w behind behind' : Text}
    (hn : n.WellFormed) (hm : m.WellFormed)
    (h : n.spelling ++ behind = c :: (w ++ (m.spelling ++ behind'))) :
    n.spelling <+: c :: (w ++ m.spelling) := by
  have hreach := ((alike_spelling hm behind' []).append w).reach_cons c
  rw [← h, List.append_nil, reach_nodePattern, reach_nodePattern, read?_spelling hn] at hreach
  obtain ⟨⟨n', u⟩, hr, -⟩ := Option.map_eq_some_iff.mp hreach.symm
  obtain ⟨hn', hu⟩ := eq_spelling_of_read? hr
  have hsame : n.spelling ++ behind = n'.spelling ++ (u ++ behind') := by
    rw [h, ← List.append_assoc n'.spelling, ← hu, List.cons_append, List.append_assoc]
  obtain ⟨rfl, -⟩ := spelling_append_inj hn hn' hsame
  exact ⟨u, hu.symm⟩

end OldNode

/-- Of two nodes of a document, the one that begins first ends first, or both end together. -/
theorem OccursAt.stop_le {document : Text} {i j : ℕ} {n m : OldNode}
    (hn : OccursAt document i n) (hm : OccursAt document j m) (h : i < j) :
    i + units n.spelling ≤ j + units m.spelling := by
  obtain ⟨wn, before, behind, he, rfl⟩ := hn
  obtain ⟨wm, before', behind', he', rfl⟩ := hm
  rcases List.append_eq_append_iff.mp (he.symm.trans he') with ⟨w, rfl, hw⟩ | ⟨w, rfl, -⟩
  · cases w with
    | nil =>
      rw [List.append_nil] at h
      exact absurd h (lt_irrefl _)
    | cons c w =>
      obtain ⟨u, hu⟩ := OldNode.spelling_isPrefix wn wm hw
      have hsize := congrArg units hu
      simp only [units_append, units_cons] at hsize ⊢
      omega
  · rw [units_append] at h
    omega

/-- These are nodes of the document, no two of which overlap. -/
structure ApartIn (document : Text) (chosen : Finset Fragment) : Prop where
  occur : ∀ f ∈ chosen, ∃ n, OccursAt document f.index n ∧ f = n.fragment f.index
  apart : ∀ f ∈ chosen, ∀ g ∈ chosen, f ≠ g → f.stop ≤ g.index ∨ g.stop ≤ f.index

theorem apartIn_findFragments (document : Text) :
    ApartIn document (findFragments document).toFinset where
  occur f hf := occursAt_of_mem_findFragments (List.mem_toFinset.mp hf)
  apart f hf g hg hne := by
    have hl := leftmostListing_findFragments document
    have hf' := List.mem_toFinset.mp hf
    have hg' := List.mem_toFinset.mp hg
    rcases lt_trichotomy f.index g.index with hlt | heq | hgt
    · exact .inl (hl.stop_le_index hf' hg' hlt)
    · obtain ⟨n, ho, he⟩ := occursAt_of_mem_findFragments hf'
      obtain ⟨m, ho', he'⟩ := occursAt_of_mem_findFragments hg'
      rw [heq] at ho he
      rw [he, ho.unique ho', ← he'] at hne
      exact absurd rfl hne
    · exact .inr (hl.stop_le_index hg' hf' hgt)

/-- A fragment ends no later than any node that begins inside it. -/
theorem Fragment.stop_le_of_begins_inside {document : Text} {f g : Fragment}
    (hf : f ∈ findFragments document) {m : OldNode} (hg : OccursAt document g.index m)
    (hm : g = m.fragment g.index) (hle : f.index ≤ g.index) : f.stop ≤ g.stop := by
  obtain ⟨n, ho, hn⟩ := occursAt_of_mem_findFragments hf
  rw [hn, hm, OldNode.stop_fragment, OldNode.stop_fragment]
  rcases Nat.lt_or_eq_of_le hle with hlt | heq
  · exact ho.stop_le hg hlt
  · rw [heq] at ho ⊢
    rw [ho.unique hg]

/-- Nodes that are apart begin in different fragments. -/
theorem ApartIn.card_le {document : Text} {chosen : Finset Fragment}
    (h : ApartIn document chosen) : chosen.card ≤ (findFragments document).length := by
  have hl := leftmostListing_findFragments document
  rw [← List.toFinset_card_of_nodup hl.nodup]
  refine Finset.card_le_card_of_forall_subsingleton
    (fun g f => f.index ≤ g.index ∧ g.index < f.stop) ?_ ?_
  · intro g hg
    obtain ⟨m, ho, -⟩ := h.occur g hg
    obtain ⟨f, hf, hover⟩ := hl.complete _ _ ho
    exact ⟨f, List.mem_toFinset.mpr hf, hover⟩
  · rintro f hf g ⟨hg, hle, hlt⟩ g' ⟨hg', hle', hlt'⟩
    have hf' := List.mem_toFinset.mp hf
    obtain ⟨m, ho, hm⟩ := h.occur g hg
    obtain ⟨m', ho', hm'⟩ := h.occur g' hg'
    -- Both would run over the end of the fragment.
    have hstop := Fragment.stop_le_of_begins_inside hf' ho hm hle
    have hstop' := Fragment.stop_le_of_begins_inside hf' ho' hm' hle'
    by_contra hne
    rcases h.apart g hg g' hg' hne with hap | hap <;> omega

/-- No choice of nodes that are apart from each other has more members than the fragments of the
document, which are such a choice. -/
theorem isGreatest_card_apartIn (document : Text) :
    IsGreatest {k | ∃ chosen, ApartIn document chosen ∧ chosen.card = k}
      (findFragments document).length := by
  constructor
  · exact ⟨_, apartIn_findFragments document,
      List.toFinset_card_of_nodup (leftmostListing_findFragments document).nodup⟩
  · rintro _ ⟨chosen, h, rfl⟩
    exact h.card_le

end NodeReshape
