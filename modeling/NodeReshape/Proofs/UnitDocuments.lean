import NodeReshape.Proofs.OverlappingNodes
import NodeReshape.Proofs.RepetitionLengths
import NodeReshape.Proofs.SearchProgress
import NodeReshape.Proofs.StandIns

/-!
# Documents in units

A text in memory is a row of units, and nothing keeps the surrogates in it in pairs. The nodes found
in such a text are still its one leftmost listing, no fewer than any choice of nodes apart from each
other, and none is shorter than 26 units. This is carried over from the characters that stand in for
the units. They tell the places of the nodes, and at a place the text tells the captures.
-/
namespace NodeReshape

section Places

variable {us : List UInt16} {start : ℕ} {f : UnitFragment}

/-- What one scan finds in a text is the node read in the characters that stand in. -/
theorem map_characters_scanUnits? (us : List UInt16) (start : ℕ) :
    (scanUnits? us start).map UnitFragment.characters =
      (OldNode.read? (standIns (us.drop start))).map fun r => r.1.fragment start := by
  cases h : greedy? UInt16.toNat oldShape (us.drop start) with
  | none =>
    have hread := read?_standIns (us.drop start)
    rw [h, Option.map_none, Option.map_eq_none_iff] at hread
    rw [scanUnits?, h, hread]
    rfl
  | some r =>
    obtain ⟨n, hread, -, hfragment⟩ := exists_read?_of_greedy? h start
    rw [scanUnits?, h, hread, Option.map_some, Option.map_some, Option.map_some, hfragment]

theorem index_of_scanUnits? (h : scanUnits? us start = some f) : f.index = start := by
  obtain ⟨r, -, rfl⟩ := Option.map_eq_some_iff.mp h
  rfl

theorem occursAt_of_scanUnits? (h : scanUnits? us start = some f) :
    ∃ n, OccursAt (standIns us) start n ∧ f.characters = n.fragment start := by
  have hmap := map_characters_scanUnits? us start
  rw [h, Option.map_some, eq_comm, Option.map_eq_some_iff] at hmap
  obtain ⟨⟨n, rest⟩, hread, hn⟩ := hmap
  obtain ⟨hw, hdrop⟩ := OldNode.eq_spelling_of_read? hread
  refine ⟨n, ⟨hw, standIns (us.take start), rest, ?_, ?_⟩, hn.symm⟩
  · rw [← hdrop, ← standIns_append, List.take_append_drop]
  · have hle : start ≤ us.length := by
      by_contra hlt
      rw [List.drop_eq_nil_of_le (by omega)] at hdrop
      exact n.spelling_ne_nil (List.append_eq_nil_iff.mp hdrop.symm).1
    rw [units_standIns, List.length_take, Nat.min_eq_left hle]

theorem exists_scanUnits?_of_occursAt {n : OldNode} (h : OccursAt (standIns us) start n) :
    ∃ f, scanUnits? us start = some f ∧ f.characters = n.fragment start := by
  obtain ⟨hn, before, behind, he, hstart⟩ := h
  have hdrop := dropUnits_units before (n.spelling ++ behind)
  rw [← he, hstart, dropUnits_standIns] at hdrop
  have hmap := map_characters_scanUnits? us start
  rw [hdrop, OldNode.read?_spelling hn, Option.map_some] at hmap
  exact Option.map_eq_some_iff.mp hmap

theorem stop_le_of_scanUnits? (h : scanUnits? us start = some f) : f.stop ≤ us.length := by
  obtain ⟨n, hn, he⟩ := occursAt_of_scanUnits? h
  have hstop := hn.stop_le_units
  rwa [units_standIns, ← he] at hstop

theorem lt_stop_of_scanUnits? (h : scanUnits? us start = some f) : start < f.stop := by
  obtain ⟨n, hn, he⟩ := occursAt_of_scanUnits? h
  have hpos := n.units_spelling_pos
  have hstop : f.stop = (n.fragment start).stop := congrArg Fragment.stop he
  rw [hstop, OldNode.stop_fragment]
  omega

theorem exists_greedy?_of_mem_unitMatchesFrom {pending offset : ℕ} {m : UnitMatch}
    (h : m ∈ unitMatchesFrom pending offset us) :
    ∃ k rest, m.index = offset + k ∧
      greedy? UInt16.toNat oldShape (us.drop k) = some (m.pieces, rest) := by
  induction us generalizing pending offset with
  | nil => simp [unitMatchesFrom] at h
  | cons u us ih =>
    have later {pending : ℕ} (h : m ∈ unitMatchesFrom pending (offset + 1) us) :
        ∃ k rest, m.index = offset + k ∧
          greedy? UInt16.toNat oldShape ((u :: us).drop k) = some (m.pieces, rest) := by
      obtain ⟨k, rest, hk, hscan⟩ := ih h
      exact ⟨k + 1, rest, by omega, hscan⟩
    cases pending with
    | succ k => exact later h
    | zero =>
      rw [unitMatchesFrom, choices_eq_greedy? decisive_oldShape, Option.head?_toList] at h
      split at h
      case h_1 pieces rest hscan =>
        rcases List.mem_cons.mp h with rfl | h
        · exact ⟨0, rest, rfl, hscan⟩
        · exact later h
      case h_2 => exact later h

/-- A node that is listed is found by one scan at its place. -/
theorem scanUnits?_of_mem (h : f ∈ findUnitFragments us) : scanUnits? us f.index = some f := by
  obtain ⟨m, hm, rfl⟩ := List.mem_map.mp h
  obtain ⟨k, rest, hk, hscan⟩ := exists_greedy?_of_mem_unitMatchesFrom hm
  have hindex : m.fragment.index = k := by
    rw [← Nat.zero_add k, ← hk]
    rfl
  rw [hindex, scanUnits?, hscan, Option.map_some, Option.some_inj]
  rw [Nat.zero_add] at hk
  rw [← hk]

/-- Nodes of a text are told by their places. -/
theorem isPrefix_of_map_index {fs gs : List UnitFragment}
    (hf : ∀ f ∈ fs, scanUnits? us f.index = some f) (hg : ∀ g ∈ gs, scanUnits? us g.index = some g)
    (h : fs.map UnitFragment.index <+: gs.map UnitFragment.index) : fs <+: gs := by
  have hscan {fs : List UnitFragment} (hf : ∀ f ∈ fs, scanUnits? us f.index = some f) :
      (fs.map UnitFragment.index).map (scanUnits? us) = fs.map some := by
    rw [List.map_map]
    exact List.map_congr_left hf
  have hsome := h.map (scanUnits? us)
  rw [hscan hf, hscan hg] at hsome
  exact (List.prefix_map_iff_of_injective (Option.some_injective _)).mp hsome

theorem eq_of_map_index {fs gs : List UnitFragment}
    (hf : ∀ f ∈ fs, scanUnits? us f.index = some f) (hg : ∀ g ∈ gs, scanUnits? us g.index = some g)
    (h : fs.map UnitFragment.index = gs.map UnitFragment.index) : fs = gs := by
  have hprefix := isPrefix_of_map_index hf hg (h ▸ List.prefix_refl _)
  refine hprefix.eq_of_length ?_
  rw [← List.length_map UnitFragment.index, h, List.length_map]

theorem map_index_findUnitFragments (us : List UInt16) :
    (findUnitFragments us).map UnitFragment.index =
      (findFragments (standIns us)).map Fragment.index := by
  rw [findFragments_standIns, List.map_map]
  rfl

end Places

/-- The fragments are nodes of the text, each of them stops before the next one, and no node of the
text begins outside all of them. -/
structure UnitListing (us : List UInt16) (fragments : List UnitFragment) : Prop where
  sound : ∀ f ∈ fragments, ∃ ks, FoundBy ks us f.index f
  apart : fragments.Pairwise fun f g => f.stop ≤ g.index
  complete : ∀ start f ks, FoundBy ks us start f →
    ∃ g ∈ fragments, g.index ≤ start ∧ start < g.stop

theorem unitListing_findUnitFragments (us : List UInt16) :
    UnitListing us (findUnitFragments us) where
  sound f hf := scanUnits?_eq_some_iff.mp (scanUnits?_of_mem hf)
  apart := by
    have hapart := (leftmostListing_findFragments (standIns us)).apart
    rw [findFragments_standIns, List.pairwise_map] at hapart
    exact hapart
  complete start f ks h := by
    obtain ⟨n, hn, -⟩ := occursAt_of_scanUnits? (scanUnits?_eq_some_iff.mpr ⟨ks, h⟩)
    obtain ⟨c, hc, hover⟩ := (leftmostListing_findFragments (standIns us)).complete start n hn
    rw [findFragments_standIns] at hc
    obtain ⟨g, hg, rfl⟩ := List.mem_map.mp hc
    exact ⟨g, hg, hover⟩

theorem UnitListing.characters {us : List UInt16} {fs : List UnitFragment}
    (h : UnitListing us fs) :
    LeftmostListing (standIns us) (fs.map UnitFragment.characters) where
  sound := by
    intro c hc
    obtain ⟨f, hf, rfl⟩ := List.mem_map.mp hc
    obtain ⟨n, hn, he⟩ := occursAt_of_scanUnits? (scanUnits?_eq_some_iff.mpr (h.sound f hf))
    exact ⟨n, hn, he, he ▸ slice_of_occursAt hn⟩
  apart := List.pairwise_map.mpr h.apart
  complete start n hn := by
    obtain ⟨f, hf, -⟩ := exists_scanUnits?_of_occursAt hn
    obtain ⟨ks, hks⟩ := scanUnits?_eq_some_iff.mp hf
    obtain ⟨g, hg, hover⟩ := h.complete start f ks hks
    exact ⟨g.characters, List.mem_map_of_mem hg, hover⟩

/-- The nodes found in a unit text are its one leftmost listing. -/
theorem unitListing_iff (us : List UInt16) (fragments : List UnitFragment) :
    UnitListing us fragments ↔ fragments = findUnitFragments us := by
  constructor
  · intro h
    have heq := h.characters.eq (unitListing_findUnitFragments us).characters
    refine eq_of_map_index (fun f hf => scanUnits?_eq_some_iff.mpr (h.sound f hf))
      (fun f hf => scanUnits?_of_mem hf) ?_
    have hindex := congrArg (List.map Fragment.index) heq
    rwa [List.map_map, List.map_map] at hindex
  · rintro rfl
    exact unitListing_findUnitFragments us

/-- Nodes of a unit text no two of which overlap are not more than those found. -/
theorem length_le_of_apart {us : List UInt16} {fs : List UnitFragment} (distinct : fs.Nodup)
    (found : ∀ f ∈ fs, ∃ ks, FoundBy ks us f.index f)
    (apart : ∀ f ∈ fs, ∀ g ∈ fs, f ≠ g → f.stop ≤ g.index ∨ g.stop ≤ f.index) :
    fs.length ≤ (findUnitFragments us).length := by
  have hscan : ∀ f ∈ fs, scanUnits? us f.index = some f :=
    fun f hf => scanUnits?_eq_some_iff.mpr (found f hf)
  have hinj : ∀ f ∈ fs, ∀ g ∈ fs, f.characters = g.characters → f = g := by
    intro f hf g hg heq
    have hindex : f.index = g.index := congrArg Fragment.index heq
    apply Option.some_injective
    rw [← hscan f hf, hindex, hscan g hg]
  have hchosen : ApartIn (standIns us) (fs.map UnitFragment.characters).toFinset := by
    constructor
    case occur =>
      intro c hc
      obtain ⟨f, hf, rfl⟩ := List.mem_map.mp (List.mem_toFinset.mp hc)
      exact occursAt_of_scanUnits? (hscan f hf)
    case apart =>
      intro c hc d hd hne
      obtain ⟨f, hf, rfl⟩ := List.mem_map.mp (List.mem_toFinset.mp hc)
      obtain ⟨g, hg, rfl⟩ := List.mem_map.mp (List.mem_toFinset.mp hd)
      exact apart f hf g hg (ne_of_apply_ne _ hne)
  have hcard := hchosen.card_le
  rwa [List.toFinset_card_of_nodup (distinct.map_on hinj), findFragments_standIns,
    List.length_map, List.length_map] at hcard

/-- The sizes of a node in units are not below those of the shortest node. -/
structure UnitFragment.Sized (f : UnitFragment) : Prop where
  name : 1 ≤ f.name.length
  ty : 1 ≤ f.ty.length
  inner : 3 ≤ f.inner.length
  length : 21 + f.name.length + f.ty.length + f.inner.length ≤ f.length

theorem FoundBy.sized {ks : List ℕ} {us : List UInt16} {start : ℕ} {f : UnitFragment}
    (h : FoundBy ks us start f) : f.Sized := by
  obtain ⟨n, hn, he⟩ := occursAt_of_scanUnits? (scanUnits?_eq_some_iff.mpr ⟨ks, h⟩)
  have hsized : f.characters.Sized := he ▸ OldNode.sized hn.1 start
  obtain ⟨hname, hty, hinner, hlength⟩ := hsized
  simp only [UnitFragment.characters, units_standIns] at hname hty hinner hlength
  exact ⟨hname, hty, hinner, hlength⟩

/-- A unit text has one node for every 26 units at most. -/
theorem length_findUnitFragments_le (us : List UInt16) :
    26 * (findUnitFragments us).length ≤ us.length := by
  have hle := length_findFragments_le (standIns us)
  rwa [findFragments_standIns, List.length_map, units_standIns] at hle

end NodeReshape
