import NodeReshape.Proofs.DocumentLayout

/-!
# Cutting a document

A document is reshaped part by part when it is cut outside its fragments. The cut may hide nodes
that ran over it; none of them was a fragment. It may also free nodes in the second part; all of
them were fragments before, because no earlier fragment reached over the cut.
-/
namespace NodeReshape

/-- The fragment further back in a longer document. -/
def Fragment.moved (distance : ℕ) (f : Fragment) : Fragment :=
  { f with index := f.index + distance }

theorem OldNode.moved_fragment (n : OldNode) (index distance : ℕ) :
    (n.fragment index).moved distance = n.fragment (index + distance) := rfl

theorem scan_add (t : Text) (offset distance : ℕ) :
    scan 0 (offset + distance) t = (scan 0 offset t).map (Fragment.moved distance) := by
  induction t using document_induction generalizing offset with
  | empty => rfl
  | node n rest hn ih =>
    rw [scan_spelling hn, scan_spelling hn, List.map_cons, ← ih, OldNode.moved_fragment,
      Nat.add_right_comm]
  | plain c t hr ih =>
    rw [scan_eq_of_read?_eq_none _ hr, scan_eq_of_read?_eq_none _ hr, ← ih, Nat.add_right_comm]

theorem scan_eq_map_moved (start : ℕ) (t : Text) :
    scan 0 start t = (findFragments t).map (Fragment.moved start) := by
  rw [findFragments, ← scan_add, Nat.zero_add]

theorem stop_le_of_mem_scan {t : Text} {offset : ℕ} {f : Fragment} (hf : f ∈ scan 0 offset t) :
    f.stop ≤ offset + units t := by
  obtain ⟨before, n, behind, -, rfl, rfl⟩ := mem_scan hf
  simp only [OldNode.stop_fragment, units_append]
  omega

/-- A text that begins with no node begins with none either when it ends earlier. -/
theorem read?_eq_none_of_append {a b : Text} (h : OldNode.read? (a ++ b) = none) :
    OldNode.read? a = none := by
  apply OldNode.read?_eq_none_iff.mpr
  rintro n behind hn rfl
  rw [List.append_assoc, OldNode.read?_spelling hn] at h
  simp at h

/-- A cut that does not run through the node at the front leaves this node in one piece. -/
theorem eq_nil_or_of_append_eq_spelling {a b rest : Text} {n : OldNode}
    (ht : a ++ b = n.spelling ++ rest) (h : ¬ (0 < units a ∧ units a < units n.spelling)) :
    a = [] ∨ ∃ a', a = n.spelling ++ a' ∧ rest = a' ++ b := by
  rcases List.append_eq_append_iff.mp ht with ⟨inside, hs, hb⟩ | ⟨a', ha, hrest⟩
  · cases a with
    | nil => exact .inl rfl
    | cons c a =>
      cases inside with
      | nil => exact .inr ⟨[], by simpa using hs.symm, by simpa using hb.symm⟩
      | cons x inside =>
        have hc := width_pos c
        have hx := width_pos x
        rw [hs, units_append, units_cons, units_cons] at h
        omega
  · exact .inr ⟨a', ha, hrest⟩

/-- No fragment begins in front of the offset and ends behind it. -/
def Uncut (fragments : List Fragment) (offset : ℕ) : Prop :=
  ∀ f ∈ fragments, ¬ (f.index < offset ∧ offset < f.stop)

theorem scan_append_stream_append {a b : Text} {offset : ℕ}
    (h : Uncut (scan 0 offset (a ++ b)) (offset + units a)) :
    scan 0 offset (a ++ b) = scan 0 offset a ++ scan 0 (offset + units a) b ∧
      stream (a ++ b) = stream a ++ stream b := by
  generalize ht : a ++ b = t at h
  induction t using document_induction generalizing a offset with
  | empty =>
    obtain ⟨rfl, rfl⟩ := List.append_eq_nil_iff.mp ht
    exact ⟨rfl, rfl⟩
  | node n rest hn ih =>
    rw [scan_spelling hn] at h
    have hcut := h _ List.mem_cons_self
    rw [OldNode.index_fragment, OldNode.stop_fragment] at hcut
    rcases eq_nil_or_of_append_eq_spelling ht (by omega) with rfl | ⟨a, rfl, rfl⟩
    · rw [← ht]
      exact ⟨rfl, rfl⟩
    · obtain ⟨hscan, hstream⟩ := ih rfl fun f hf => by
        have hcut := h f (List.mem_cons_of_mem _ hf)
        rwa [units_append, ← Nat.add_assoc] at hcut
      rw [scan_spelling hn, scan_spelling hn, stream_spelling hn, stream_spelling hn, hscan,
        hstream, units_append, Nat.add_assoc, List.append_assoc]
      exact ⟨rfl, rfl⟩
  | plain c t hr ih =>
    cases a with
    | nil =>
      rw [← ht]
      exact ⟨rfl, rfl⟩
    | cons x a =>
      obtain ⟨rfl, rfl⟩ := List.cons.inj ht
      rw [scan_eq_of_read?_eq_none offset hr, units_cons, ← Nat.add_assoc] at h
      obtain ⟨hscan, hstream⟩ := ih rfl h
      have hnone : OldNode.read? (x :: a) = none := read?_eq_none_of_append (b := b) hr
      rw [scan_eq_of_read?_eq_none offset hr, scan_eq_of_read?_eq_none offset hnone,
        stream_cons hr, stream_cons hnone, hscan, hstream, units_cons, ← Nat.add_assoc]
      exact ⟨rfl, rfl⟩

/-- The fragments of a document are those of its two parts, and both parts are reshaped on their
own, exactly when no fragment runs over the cut between them. -/
theorem uncut_iff_parts (a b : Text) :
    Uncut (findFragments (a ++ b)) (units a) ↔
      findFragments (a ++ b) =
          findFragments a ++ (findFragments b).map (Fragment.moved (units a)) ∧
        transform (a ++ b) = transform a ++ transform b := by
  constructor
  · intro h
    have huncut : Uncut (scan 0 0 (a ++ b)) (0 + units a) := by rwa [Nat.zero_add]
    obtain ⟨hscan, hstream⟩ := scan_append_stream_append huncut
    rw [Nat.zero_add, scan_eq_map_moved (units a)] at hscan
    simp only [transform_eq_stream]
    exact ⟨hscan, hstream⟩
  · rintro ⟨hparts, -⟩ f hf ⟨hlt, hgt⟩
    rw [hparts, ← scan_eq_map_moved (units a)] at hf
    rcases List.mem_append.mp hf with hf | hf
    · have := stop_le_of_mem_scan hf
      omega
    · have := le_index_of_mem_scan hf
      omega

end NodeReshape
