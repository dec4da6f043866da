import Mathlib.Data.List.Sort
import NodeReshape.Fragment

/-!
# The search for fragments

`findFragments` is one greedy scan. `LeftmostListing` says what the list of fragments has to be
without mentioning a scan: nodes of the document, apart from each other, that leave no node
starting outside. Exactly one list meets it.
-/
namespace NodeReshape

/-- The text from one offset to another. -/
def slice (start stop : ℕ) (t : Text) : Text := takeUnits (stop - start) (dropUnits start t)

theorem slice_append (before middle behind : Text) :
    slice (units before) (units (before ++ middle)) (before ++ (middle ++ behind)) = middle := by
  rw [slice, dropUnits_units, units_append, Nat.add_sub_cancel_left, takeUnits_units]

namespace OldNode

theorem units_spelling_pos (n : OldNode) : 0 < units n.spelling := by
  have := width_pos '('
  simp only [spelling, units_cons]
  omega

theorem spelling_ne_nil (n : OldNode) : n.spelling ≠ [] := by simp [spelling]

@[simp] theorem index_fragment (n : OldNode) (index : ℕ) : (n.fragment index).index = index := rfl

@[simp] theorem stop_fragment (n : OldNode) (index : ℕ) :
    (n.fragment index).stop = index + units n.spelling := rfl

/-- The spelling and the text behind it determine each other's extent. -/
theorem spelling_append_inj {n m : OldNode} {behind behind' : Text} (hn : n.WellFormed)
    (hm : m.WellFormed) (h : n.spelling ++ behind = m.spelling ++ behind') :
    n = m ∧ behind = behind' := by
  have hr := read?_spelling hn behind
  rw [h, read?_spelling hm behind'] at hr
  simp only [Option.some.injEq, Prod.mk.injEq] at hr
  exact ⟨hr.1.symm, hr.2.symm⟩

theorem read?_eq_none_iff {t : Text} :
    read? t = none ↔ ∀ n behind, WellFormed n → t ≠ n.spelling ++ behind := by
  constructor
  · rintro h n behind hn rfl
    rw [read?_spelling hn] at h
    simp at h
  · intro h
    cases hr : read? t with
    | none => rfl
    | some r =>
      obtain ⟨hw, he⟩ := eq_spelling_of_read? hr
      exact absurd he (h r.1 r.2 hw)

end OldNode

/-- A text is empty, begins with a node, or begins with a character at which no node begins. -/
@[elab_as_elim]
theorem document_induction {motive : Text → Prop} (empty : motive [])
    (node : ∀ (n : OldNode) rest, n.WellFormed → motive rest → motive (n.spelling ++ rest))
    (plain : ∀ c t, OldNode.read? (c :: t) = none → motive t → motive (c :: t))
    (t : Text) : motive t := by
  induction hl : t.length using Nat.strong_induction_on generalizing t with
  | _ k ih =>
    cases t with
    | nil => exact empty
    | cons c t =>
      cases hr : OldNode.read? (c :: t) with
      | none => exact plain c t hr (ih t.length (by simp [← hl]) t rfl)
      | some r =>
        obtain ⟨hw, he⟩ := OldNode.eq_spelling_of_read? hr
        have hp := List.length_pos_iff.mpr r.1.spelling_ne_nil
        rw [he] at hl ⊢
        rw [List.length_append] at hl
        exact node r.1 r.2 hw (ih r.2.length (by omega) r.2 rfl)

/-- A listed fragment is a node of the text. -/
theorem mem_scan {t : Text} {offset : ℕ} {f : Fragment} (hf : f ∈ scan 0 offset t) :
    ∃ (before : Text) (n : OldNode) (behind : Text), n.WellFormed ∧ t = before ++ (n.spelling ++ behind) ∧
      f = n.fragment (offset + units before) := by
  induction t using document_induction generalizing offset with
  | empty => simp [scan_nil] at hf
  | node n rest hn ih =>
    rw [scan_spelling hn] at hf
    rcases List.mem_cons.mp hf with rfl | hf
    · exact ⟨[], n, rest, hn, rfl, by simp⟩
    · obtain ⟨before, m, behind, hm, rfl, rfl⟩ := ih hf
      exact ⟨n.spelling ++ before, m, behind, hm, by simp, by simp [Nat.add_assoc]⟩
  | plain c t hr ih =>
    rw [scan_eq_of_read?_eq_none offset hr] at hf
    obtain ⟨before, m, behind, hm, rfl, rfl⟩ := ih hf
    exact ⟨c :: before, m, behind, hm, by simp, by simp [Nat.add_assoc]⟩

theorem le_index_of_mem_scan {t : Text} {offset : ℕ} {f : Fragment} (hf : f ∈ scan 0 offset t) :
    offset ≤ f.index := by
  obtain ⟨before, n, _, _, _, rfl⟩ := mem_scan hf
  exact Nat.le_add_right _ _

/-- Every listed fragment ends before the next one begins. -/
theorem scan_pairwise (t : Text) (offset : ℕ) :
    (scan 0 offset t).Pairwise fun f g => f.stop ≤ g.index := by
  induction t using document_induction generalizing offset with
  | empty => simp [scan_nil]
  | node n rest hn ih =>
    rw [scan_spelling hn]
    exact List.pairwise_cons.mpr ⟨fun g hg => le_index_of_mem_scan hg, ih _⟩
  | plain c t hr ih =>
    rw [scan_eq_of_read?_eq_none offset hr]
    exact ih _

/-- A node of the text begins inside a listed fragment. -/
theorem scan_covers {n : OldNode} (hn : n.WellFormed) (a behind : Text) (offset : ℕ) :
    ∃ f ∈ scan 0 offset (a ++ (n.spelling ++ behind)),
      f.index ≤ offset + units a ∧ offset + units a < f.stop := by
  generalize ht : a ++ (n.spelling ++ behind) = t
  induction t using document_induction generalizing offset a with
  | empty => simp [n.spelling_ne_nil] at ht
  | node m rest hm ih =>
    rw [scan_spelling hm]
    -- The node begins either behind the fragment `m` or at one of the characters of `m`.
    rcases List.append_eq_append_iff.mp ht with ⟨inside, hs, _⟩ | ⟨a', rfl, hrest⟩
    · cases inside with
      | nil =>
        obtain ⟨f, hf, hle, hlt⟩ := ih [] (offset + units m.spelling)
          (by simpa [hs] using ht)
        refine ⟨f, List.mem_cons_of_mem _ hf, ?_, ?_⟩
        · simpa [hs] using hle
        · simpa [hs] using hlt
      | cons x inside =>
        have hx := width_pos x
        refine ⟨m.fragment offset, List.mem_cons_self, by simp, ?_⟩
        rw [OldNode.stop_fragment, hs, units_append, units_cons]
        omega
    · obtain ⟨f, hf, hle, hlt⟩ := ih a' (offset + units m.spelling) hrest.symm
      rw [units_append, ← Nat.add_assoc]
      exact ⟨f, List.mem_cons_of_mem _ hf, hle, hlt⟩
  | plain c t hr ih =>
    rw [scan_eq_of_read?_eq_none offset hr]
    cases a with
    | nil =>
      rw [List.nil_append] at ht
      rw [← ht, OldNode.read?_spelling hn] at hr
      simp at hr
    | cons x a =>
      obtain ⟨rfl, ht'⟩ := List.cons.inj ht
      obtain ⟨f, hf, hle, hlt⟩ := ih a (offset + width x) ht'
      rw [units_cons, ← Nat.add_assoc]
      exact ⟨f, hf, hle, hlt⟩

/-- The fragments are nodes of the document, each of them stops before the next one, and no node
of the document begins outside all of them. -/
structure LeftmostListing (document : Text) (fragments : List Fragment) : Prop where
  sound : ∀ f ∈ fragments, ∃ n, OccursAt document f.index n ∧ f = n.fragment f.index ∧
    slice f.index f.stop document = n.spelling
  apart : fragments.Pairwise fun f g => f.stop ≤ g.index
  complete : ∀ index n, OccursAt document index n →
    ∃ f ∈ fragments, f.index ≤ index ∧ index < f.stop

/-- One node at most begins at an offset. -/
theorem OccursAt.unique {document : Text} {index : ℕ} {n m : OldNode}
    (hn : OccursAt document index n) (hm : OccursAt document index m) : n = m := by
  obtain ⟨wn, before, behind, he, hb⟩ := hn
  obtain ⟨wm, before', behind', he', hb'⟩ := hm
  have h := dropUnits_units before (n.spelling ++ behind)
  have h' := dropUnits_units before' (m.spelling ++ behind')
  rw [← he, hb] at h
  rw [← he', hb'] at h'
  exact (OldNode.spelling_append_inj wn wm (h.symm.trans h')).1

theorem slice_of_occursAt {document : Text} {index : ℕ} {n : OldNode}
    (h : OccursAt document index n) : slice index (n.fragment index).stop document = n.spelling := by
  obtain ⟨_, before, behind, rfl, rfl⟩ := h
  rw [OldNode.stop_fragment, ← units_append]
  exact slice_append before n.spelling behind

/-- A node ends inside its document. -/
theorem OccursAt.stop_le_units {document : Text} {index : ℕ} {n : OldNode}
    (h : OccursAt document index n) : (n.fragment index).stop ≤ units document := by
  obtain ⟨-, before, behind, rfl, rfl⟩ := h
  simp only [OldNode.stop_fragment, units_append]
  omega

theorem occursAt_of_mem_findFragments {document : Text} {f : Fragment}
    (hf : f ∈ findFragments document) :
    ∃ n, OccursAt document f.index n ∧ f = n.fragment f.index := by
  obtain ⟨before, n, behind, hn, he, rfl⟩ := mem_scan hf
  exact ⟨n, ⟨hn, before, behind, he, by simp⟩, by simp⟩

theorem leftmostListing_findFragments (document : Text) :
    LeftmostListing document (findFragments document) where
  sound f hf := by
    obtain ⟨n, ho, he⟩ := occursAt_of_mem_findFragments hf
    refine ⟨n, ho, he, ?_⟩
    rw [he]
    exact slice_of_occursAt ho
  apart := scan_pairwise document 0
  complete index n h := by
    obtain ⟨hn, before, behind, rfl, rfl⟩ := h
    simpa [findFragments] using scan_covers hn before behind 0

namespace LeftmostListing

variable {document : Text} {fs gs : List Fragment}

theorem index_lt_stop (h : LeftmostListing document fs) {f : Fragment} (hf : f ∈ fs) :
    f.index < f.stop := by
  obtain ⟨n, _, he, _⟩ := h.sound f hf
  have := n.units_spelling_pos
  rw [he, OldNode.stop_fragment, OldNode.index_fragment]
  omega

/-- Of two fragments in a listing, the one that begins first has stopped before the other. -/
theorem stop_le_index (h : LeftmostListing document fs) {f g : Fragment} (hf : f ∈ fs)
    (hg : g ∈ fs) (hlt : f.index < g.index) : f.stop ≤ g.index := by
  have hr : ∀ a ∈ fs, ∀ b ∈ fs, a.index < b.index → a.stop ≤ b.index := by
    apply List.Pairwise.forall_of_forall_of_flip
    · exact fun a _ hlt => absurd hlt (lt_irrefl _)
    · refine h.apart.imp ?_
      intro a b hle _
      exact hle
    · refine h.apart.imp_of_mem ?_
      intro a b ha _ hle hlt
      have := h.index_lt_stop ha
      omega
  exact hr f hf g hg hlt

/-- Two listings agree on every fragment when they agree on all fragments further left. -/
theorem mem_of_mem_left (hf : LeftmostListing document fs) (hg : LeftmostListing document gs)
    {f : Fragment} (h : f ∈ fs) (left : ∀ g ∈ gs, g.index < f.index → g ∈ fs) : f ∈ gs := by
  obtain ⟨n, ho, he, _⟩ := hf.sound f h
  obtain ⟨g, hgm, hle, hlt⟩ := hg.complete _ _ ho
  rcases Nat.lt_or_eq_of_le hle with hlt' | heq
  · have := hf.stop_le_index (left g hgm hlt') h hlt'
    omega
  · obtain ⟨m, hom, hem, _⟩ := hg.sound g hgm
    rw [heq] at hom hem
    rw [he, ho.unique hom, ← hem]
    exact hgm

theorem mem_iff (hf : LeftmostListing document fs) (hg : LeftmostListing document gs)
    (f : Fragment) : f ∈ fs ↔ f ∈ gs := by
  induction hk : f.index using Nat.strong_induction_on generalizing f with
  | _ k ih =>
    constructor
    · intro h
      exact hf.mem_of_mem_left hg h fun g hm hlt => (ih g.index (hk ▸ hlt) g rfl).mpr hm
    · intro h
      exact hg.mem_of_mem_left hf h fun g hm hlt => (ih g.index (hk ▸ hlt) g rfl).mp hm

theorem nodup (h : LeftmostListing document fs) : fs.Nodup := by
  refine h.apart.imp_of_mem fun {a b} ha _ hle he => ?_
  have := h.index_lt_stop ha
  rw [← he] at hle
  omega

theorem eq (hf : LeftmostListing document fs) (hg : LeftmostListing document gs) : fs = gs := by
  have hp : fs.Perm gs := (List.perm_ext_iff_of_nodup hf.nodup hg.nodup).mpr (hf.mem_iff hg)
  refine hp.eq_of_pairwise (fun a b ha hb hab hba => ?_) hf.apart hg.apart
  have := hf.index_lt_stop ha
  have := hg.index_lt_stop hb
  omega

end LeftmostListing

/-- The fragments found are the one leftmost listing of the document. -/
theorem leftmostListing_iff_eq_findFragments (document : Text) (fragments : List Fragment) :
    LeftmostListing document fragments ↔ fragments = findFragments document := by
  constructor
  · intro h
    exact h.eq (leftmostListing_findFragments document)
  · rintro rfl
    exact leftmostListing_findFragments document

end NodeReshape
