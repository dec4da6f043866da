import NodeReshape.Proofs.UnitParts

/-!
# Searching a unit text

A matcher that is used on a unit text tries one offset after the other from its place on. It does
what a matcher does on a document of characters, also where surrogates stand alone: repeated until
it fails, the search lists the nodes of the units behind its first place, each time moves on by 26
units at least, and leaves the matcher at the start.
-/
namespace NodeReshape

/-- The first node of a unit text at or behind an offset. -/
def nextUnitFragment? (us : List UInt16) (start : ℕ) : Option UnitFragment :=
  (List.range (us.drop start).length).findSome? fun k => scanUnits? us (start + k)

/-- The next node of a unit text. The matcher goes on behind it, or from the start when there is
none. -/
def Matcher.execUnits (m : Matcher) (us : List UInt16) : Option UnitFragment × Matcher :=
  match nextUnitFragment? us m.lastIndex with
  | some f => (some f, ⟨f.stop⟩)
  | none => (none, ⟨0⟩)

/-- The nodes of the units behind an offset, in their places. -/
def unitFragmentsFrom (start : ℕ) (us : List UInt16) : List UnitFragment :=
  (findUnitFragments (us.drop start)).map (UnitFragment.moved start)

theorem scanUnits?_drop (us : List UInt16) (start k : ℕ) :
    scanUnits? us (start + k) = (scanUnits? (us.drop start) k).map (UnitFragment.moved start) := by
  rw [scanUnits?, scanUnits?, List.drop_drop, Option.map_map, Nat.add_comm start k]
  rfl

/-- Trying the offsets one after the other finds the first node listed. -/
theorem findSome?_scanUnits? (us : List UInt16) :
    (List.range us.length).findSome? (scanUnits? us) = (findUnitFragments us).head? := by
  induction us with
  | nil => rfl
  | cons u us ih =>
    rw [List.length_cons, List.range_succ_eq_map, List.findSome?_cons]
    cases h : scanUnits? (u :: us) 0 with
    | some f =>
      rw [findUnitFragments_node h]
      rfl
    | none =>
      have hlater : scanUnits? (u :: us) ∘ Nat.succ =
          Option.map (UnitFragment.moved 1) ∘ scanUnits? us := by
        funext k
        exact (congrArg _ (Nat.succ_eq_one_add k)).trans (scanUnits?_drop (u :: us) 1 k)
      rw [findUnitFragments_plain h, List.head?_map, ← ih, List.findSome?_map, hlater,
        List.map_findSome?]

theorem nextUnitFragment?_eq (us : List UInt16) (start : ℕ) :
    nextUnitFragment? us start = (unitFragmentsFrom start us).head? := by
  have hscan : (fun k => scanUnits? us (start + k)) =
      Option.map (UnitFragment.moved start) ∘ scanUnits? (us.drop start) :=
    funext (scanUnits?_drop us start)
  rw [nextUnitFragment?, hscan, ← List.map_findSome?, findSome?_scanUnits?, unitFragmentsFrom,
    List.head?_map]

/-- Nodes behind an offset of a part are nodes behind an offset of the whole. -/
theorem unitFragmentsFrom_drop (us : List UInt16) (start k : ℕ) :
    (unitFragmentsFrom k (us.drop start)).map (UnitFragment.moved start) =
      unitFragmentsFrom (k + start) us := by
  have hmoved : UnitFragment.moved start ∘ UnitFragment.moved k = UnitFragment.moved (k + start) :=
    funext fun f => congrArg (fun index => { f with index }) (Nat.add_assoc ..)
  rw [unitFragmentsFrom, unitFragmentsFrom, List.drop_drop, List.map_map, hmoved,
    Nat.add_comm start]

/-- Behind the first node of a text stand the others. -/
theorem findUnitFragments_behind {us : List UInt16} {f : UnitFragment} {fs : List UnitFragment}
    (h : findUnitFragments us = f :: fs) : unitFragmentsFrom f.stop us = fs := by
  induction us generalizing f fs with
  | nil => cases h
  | cons u us ih =>
    cases hscan : scanUnits? (u :: us) 0 with
    | some g =>
      rw [findUnitFragments_node hscan] at h
      obtain ⟨rfl, rfl⟩ := List.cons.inj h
      rfl
    | none =>
      rw [findUnitFragments_plain hscan] at h
      obtain ⟨g, gs, hfound, rfl, rfl⟩ := List.map_eq_cons_iff.mp h
      rw [g.stop_moved, ← ih hfound]
      exact (unitFragmentsFrom_drop (u :: us) 1 g.stop).symm

theorem unitFragmentsFrom_behind {us : List UInt16} {start : ℕ} {f : UnitFragment}
    {fs : List UnitFragment} (h : unitFragmentsFrom start us = f :: fs) :
    unitFragmentsFrom f.stop us = fs := by
  obtain ⟨g, gs, hfound, rfl, rfl⟩ := List.map_eq_cons_iff.mp h
  rw [g.stop_moved, ← findUnitFragments_behind hfound, unitFragmentsFrom_drop]

theorem scanUnits?_of_mem_unitFragmentsFrom {us : List UInt16} {start : ℕ} {f : UnitFragment}
    (h : f ∈ unitFragmentsFrom start us) : start ≤ f.index ∧ scanUnits? us f.index = some f := by
  obtain ⟨g, hg, rfl⟩ := List.mem_map.mp h
  have hscan : scanUnits? us (start + g.index) = some (g.moved start) := by
    rw [scanUnits?_drop, scanUnits?_of_mem hg, Option.map_some]
  rw [g.index_moved, Nat.add_comm]
  exact ⟨Nat.le_add_right _ _, hscan⟩

/-- A node that begins at or behind an offset begins inside one of those listed from there. -/
theorem exists_mem_unitFragmentsFrom {us : List UInt16} {start i : ℕ} {g : UnitFragment}
    (hi : start ≤ i) (h : scanUnits? us i = some g) :
    ∃ f ∈ unitFragmentsFrom start us, f.index ≤ i ∧ i < f.stop := by
  obtain ⟨k, rfl⟩ := Nat.exists_eq_add_of_le hi
  rw [scanUnits?_drop, Option.map_eq_some_iff] at h
  obtain ⟨g, hk, -⟩ := h
  obtain ⟨ks, hk⟩ := scanUnits?_eq_some_iff.mp hk
  obtain ⟨f, hf, hle, hlt⟩ :=
    (unitListing_findUnitFragments (us.drop start)).complete k g ks hk
  refine ⟨f.moved start, List.mem_map_of_mem hf, ?_, ?_⟩
  · rw [f.index_moved]
    omega
  · rw [f.stop_moved]
    omega

/-- The first node listed from an offset is the first one that begins there or behind. -/
theorem index_le_of_scanUnits? {us : List UInt16} {start i : ℕ} {f g : UnitFragment}
    {fs : List UnitFragment} (hfs : unitFragmentsFrom start us = f :: fs) (hi : start ≤ i)
    (h : scanUnits? us i = some g) : f.index ≤ i := by
  have hapart : (unitFragmentsFrom start us).Pairwise fun f g => f.stop ≤ g.index := by
    refine List.pairwise_map.mpr ?_
    refine (unitListing_findUnitFragments (us.drop start)).apart.imp fun {f g} hle => ?_
    rw [f.stop_moved, g.index_moved]
    omega
  obtain ⟨e, he, hle, -⟩ := exists_mem_unitFragmentsFrom hi h
  rw [hfs] at he hapart
  rcases List.mem_cons.mp he with rfl | he
  · exact hle
  · exact (f.index_le_stop.trans (List.rel_of_pairwise_cons hapart he)).trans hle

namespace Matcher

variable {m next : Matcher} {us : List UInt16} {f : UnitFragment}

theorem execUnits_of_nil (h : unitFragmentsFrom m.lastIndex us = []) :
    m.execUnits us = (none, ⟨0⟩) := by
  rw [execUnits, nextUnitFragment?_eq, h]
  rfl

theorem execUnits_of_cons {fs : List UnitFragment}
    (h : unitFragmentsFrom m.lastIndex us = f :: fs) : m.execUnits us = (some f, ⟨f.stop⟩) := by
  rw [execUnits, nextUnitFragment?_eq, h]
  rfl

/-- On the units of a document the search finds what it finds on the characters. -/
theorem execUnits_toUnits (m : Matcher) (document : Text) :
    m.execUnits (toUnits document) =
      ((m.exec document).1.map Fragment.inUnits, (m.exec document).2) := by
  have hfound := inUnits_fragmentsFrom m.lastIndex document
  cases hfs : fragmentsFrom m.lastIndex document with
  | nil =>
    rw [hfs] at hfound
    rw [exec_of_nil hfs, execUnits_of_nil hfound.symm]
    rfl
  | cons f fs =>
    rw [hfs, List.map_cons] at hfound
    rw [exec_of_cons hfs, execUnits_of_cons hfound.symm]
    rfl

/-- Repeating the search until it fails lists the nodes behind the first place of the matcher. -/
theorem untilFailure_execUnits (m : Matcher) (us : List UInt16) :
    UntilFailure (execUnits · us) m (unitFragmentsFrom m.lastIndex us) ⟨0⟩ := by
  generalize hfs : unitFragmentsFrom m.lastIndex us = fs
  induction fs generalizing m with
  | nil => exact .fails (execUnits_of_nil hfs)
  | cons f fs ih =>
    exact .finds (execUnits_of_cons hfs) (ih ⟨f.stop⟩ (unitFragmentsFrom_behind hfs))

/-- A search that succeeds finds the first of all nodes from the place of the matcher on, which may
overlap, and moves on by 26 units at least, not beyond the end of the text. -/
theorem execUnits_eq_some (h : m.execUnits us = (some f, next)) :
    IsLeast {i | m.lastIndex ≤ i ∧ ∃ ks g, FoundBy ks us i g} f.index ∧
      (∃ ks, FoundBy ks us f.index f) ∧ next.lastIndex = f.stop ∧
      m.lastIndex + 26 ≤ next.lastIndex ∧ next.lastIndex ≤ us.length := by
  cases hfs : unitFragmentsFrom m.lastIndex us with
  | nil =>
    rw [execUnits_of_nil hfs] at h
    cases h
  | cons g gs =>
    rw [execUnits_of_cons hfs] at h
    cases h
    have hmem : f ∈ unitFragmentsFrom m.lastIndex us := hfs ▸ List.mem_cons_self
    obtain ⟨hle, hscan⟩ := scanUnits?_of_mem_unitFragmentsFrom hmem
    obtain ⟨ks, hks⟩ := scanUnits?_eq_some_iff.mp hscan
    have hlength : 26 ≤ f.length := by
      obtain ⟨hname, hty, hinner, hlength⟩ := hks.sized
      omega
    refine ⟨⟨⟨hle, ks, f, hks⟩, ?_⟩, ⟨ks, hks⟩, rfl, ?_, stop_le_of_scanUnits? hscan⟩
    · rintro i ⟨hi, ks', g, hg⟩
      exact index_le_of_scanUnits? hfs hi (scanUnits?_eq_some_iff.mpr ⟨ks', hg⟩)
    · change m.lastIndex + 26 ≤ f.index + f.length
      omega

/-- A search that fails leaves the matcher at the start, and no node begins from its place on. -/
theorem execUnits_eq_none (h : m.execUnits us = (none, next)) :
    next = ⟨0⟩ ∧ ∀ i ks g, FoundBy ks us i g → i < m.lastIndex := by
  cases hfs : unitFragmentsFrom m.lastIndex us with
  | cons g gs =>
    rw [execUnits_of_cons hfs] at h
    cases h
  | nil =>
    rw [execUnits_of_nil hfs] at h
    cases h
    refine ⟨rfl, fun i ks g hg => ?_⟩
    by_contra hi
    obtain ⟨e, he, -⟩ := exists_mem_unitFragmentsFrom (Nat.le_of_not_lt hi)
      (scanUnits?_eq_some_iff.mpr ⟨ks, hg⟩)
    rw [hfs] at he
    cases he

end Matcher

end NodeReshape
