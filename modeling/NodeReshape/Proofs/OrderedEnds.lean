import NodeReshape.Proofs.NestingDepth
import NodeReshape.Proofs.OverlappingNodes
import NodeReshape.Proofs.RepetitionLengths
import NodeReshape.Proofs.StandIns

/-!
# Nodes end in the order in which they begin

A node that has begun in front of another one is complete by the end of it: no node has another one
inside and goes on behind it. This holds of unit texts as well, because nodes stay nodes when every
unit is replaced by a character that stands in for it.
-/
namespace NodeReshape

section Units

variable {us rest rest' : List UInt16} {pieces pieces' : List (List UInt16)} {ks ks' : List ℕ}

/-- Where the old shape takes something off the front of a unit text, a node as long as that begins
in the characters that stand in. -/
theorem Chosen.exists_node (h : Chosen UInt16.toNat oldShape ks us pieces rest) :
    ∃ n, OldNode.WellFormed n ∧ standIns us = n.spelling ++ standIns rest ∧
      n.spelling.length = pieces.flatten.length := by
  have hscan := (greedy?_eq_some_iff decisive_oldShape).mpr ⟨ks, h⟩
  obtain ⟨n, hread, hlength, -⟩ := exists_read?_of_greedy? hscan 0
  obtain ⟨hn, hus⟩ := OldNode.eq_spelling_of_read? hread
  exact ⟨n, hn, hus, hlength⟩

/-- What the old shape takes behind an offset reaches as far as what it takes there, or farther. -/
theorem Chosen.stop_le {p q : ℕ} (h : Chosen UInt16.toNat oldShape ks (us.drop p) pieces rest)
    (h' : Chosen UInt16.toNat oldShape ks' (us.drop q) pieces' rest') (hpq : p < q) :
    p + pieces.flatten.length ≤ q + pieces'.flatten.length := by
  obtain ⟨n, hn, ht, hlen⟩ := h.exists_node
  obtain ⟨m, hm, ht', hlen'⟩ := h'.exists_node
  obtain ⟨k, rfl⟩ : ∃ k, q = p + (k + 1) := ⟨q - p - 1, by omega⟩
  rw [← List.drop_drop] at ht'
  generalize us.drop p = vs at ht ht'
  cases vs with
  | nil =>
    -- Nothing is left, and no node begins there.
    simp [standIns, n.spelling_ne_nil] at ht
  | cons v vs =>
    rw [List.drop_succ_cons] at ht'
    have hcut : n.spelling ++ standIns rest = standIn v.toNat ::
        (standIns (vs.take k) ++ (m.spelling ++ standIns rest')) := by
      rw [← ht, ← ht', ← standIns_append, List.take_append_drop, standIns_cons]
    have hle := (OldNode.spelling_isPrefix hn hm hcut).length_le
    have hk := List.length_take_le k vs
    simp only [List.length_cons, List.length_append, length_standIns, hlen, hlen'] at hle
    omega

end Units

/-- Of two nodes of a unit text, whether or not they overlap, the one that begins first ends first,
or both end together. So in the list of all nodes of a document both the places where they begin and
those where they end ascend. -/
theorem ends_in_order :
    (∀ (us : List UInt16) (p q : ℕ) (ks ks' : List ℕ) (f g : UnitFragment),
      FoundBy ks us p f → FoundBy ks' us q g → p < q → f.stop ≤ g.stop) ∧
    ∀ document, (occurrences document).Pairwise fun f g => f.index < g.index ∧ f.stop ≤ g.stop := by
  constructor
  · rintro us p q ks ks' f g ⟨pieces, rest, h, rfl⟩ ⟨pieces', rest', h', rfl⟩ hpq
    exact h.stop_le h' hpq
  · intro document
    refine (occurrences_pairwise document).imp_of_mem fun {f g} hf hg hlt => ⟨hlt, ?_⟩
    obtain ⟨n, hn, he⟩ := occursAt_of_mem_occurrences hf
    obtain ⟨m, hm, he'⟩ := occursAt_of_mem_occurrences hg
    rw [he, he', OldNode.stop_fragment, OldNode.stop_fragment]
    exact hn.stop_le hm hlt

/-- Half of a character in front of a node whose name begins another node: the quotes around the
type of the first node are those in front of the type of the second. -/
def crossedNodes : List UInt16 :=
  0xD83D :: toUnits "(name: \"(name: \", ty: \", ty: \", inner: (1)\", inner: (2)".toList

theorem ends_in_order_crossed : ∃ ks ks' f g,
    FoundBy ks crossedNodes 1 f ∧ FoundBy ks' crossedNodes 9 g ∧ f.stop = 43 ∧ g.stop = 56 ∧
      f.stop ≤ g.stop := by
  let f : Fragment := ⟨"(name: ".toList, ", ty: ".toList, "(1)".toList, 1, 42⟩
  let g : Fragment := ⟨", ty: ".toList, ", inner: (1)".toList, "(2)".toList, 9, 47⟩
  have hf : scanUnits? crossedNodes 1 = some f.inUnits := by decide
  have hg : scanUnits? crossedNodes 9 = some g.inUnits := by decide
  obtain ⟨ks, hks⟩ := scanUnits?_eq_some_iff.mp hf
  obtain ⟨ks', hks'⟩ := scanUnits?_eq_some_iff.mp hg
  exact ⟨ks, ks', f.inUnits, g.inUnits, hks, hks', rfl, rfl,
    ends_in_order.1 crossedNodes 1 9 ks ks' _ _ hks hks' (by decide)⟩

/-- A node that begins in the body of another one ends together with it. -/
example :
    let document := "(name: \"a\", ty: \"b\", inner: ((name: \"c\", ty: \"d\", inner: (1))".toList
    (occurrences document).map (fun f => (f.index, f.stop)) = [(0, 60), (29, 60)] := by decide

end NodeReshape
