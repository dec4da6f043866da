import NodeReshape.Proofs.BalancedBrackets
import NodeReshape.Proofs.Delimiters
import NodeReshape.Proofs.KeyCount
import NodeReshape.Proofs.NestingDepth
import NodeReshape.Proofs.UnitDocuments

/-!
# Reshaping documents in units

Reshaping a unit text over and over takes one node away over every offset where the most nodes are,
as it does in a document of characters, and a pass uses up as many nodes as it finds. Parentheses,
quotes, brackets and the keys of types have no surrogates in them, so what is left of a unit text
when all other units are dropped is left of the characters that stand in.
-/
namespace NodeReshape

section Nesting

/-- The node at every offset of a unit text, overlapping ones included. -/
def unitOccurrences (us : List UInt16) : List UnitFragment :=
  (List.range us.length).filterMap (scanUnits? us)

def UnitFragment.span (f : UnitFragment) : Span := ⟨f.index, f.stop⟩

/-- The greatest number of nodes over one offset of a unit text. -/
def unitNesting (us : List UInt16) : ℕ :=
  (Finset.range us.length).sup (covering ((unitOccurrences us).map UnitFragment.span))

theorem mem_unitOccurrences_iff {us : List UInt16} {f : UnitFragment} :
    f ∈ unitOccurrences us ↔ ∃ ks, FoundBy ks us f.index f := by
  rw [← scanUnits?_eq_some_iff, unitOccurrences, List.mem_filterMap]
  constructor
  · intro ⟨start, _, h⟩
    rwa [index_of_scanUnits? h]
  · intro h
    have hlt := lt_stop_of_scanUnits? h
    have hle := stop_le_of_scanUnits? h
    exact ⟨f.index, List.mem_range.mpr (by omega), h⟩

theorem filterMap_range_read? (us : List UInt16) (offset : ℕ) :
    (List.range us.length).filterMap (fun start =>
        (OldNode.read? (standIns (us.drop start))).map fun r => r.1.fragment (offset + start)) =
      occurrencesFrom offset (standIns us) := by
  induction us generalizing offset with
  | nil => rfl
  | cons u us ih =>
    have later : (List.range us.length).filterMap (fun start =>
        (OldNode.read? (standIns (us.drop start))).map fun r =>
          r.1.fragment (offset + (start + 1))) = occurrencesFrom (offset + 1) (standIns us) := by
      rw [← ih (offset + 1)]
      simp only [Nat.add_assoc, Nat.add_comm 1]
    rw [List.length_cons, List.range_succ_eq_map, List.filterMap_cons, List.filterMap_map,
      standIns_cons, occurrencesFrom, width_standIn, ← later]
    cases h : OldNode.read? (standIn u.toNat :: standIns us) <;>
      simp [standIns_cons, h]

theorem map_characters_unitOccurrences (us : List UInt16) :
    (unitOccurrences us).map UnitFragment.characters = occurrences (standIns us) := by
  have hoccur := filterMap_range_read? us 0
  simp only [Nat.zero_add] at hoccur
  rw [unitOccurrences, List.map_filterMap, occurrences, ← hoccur]
  exact List.filterMap_congr fun start _ => map_characters_scanUnits? us start

theorem unitNesting_eq (us : List UInt16) : unitNesting us = nesting (standIns us) := by
  rw [unitNesting, nesting, units_standIns, ← map_characters_unitOccurrences, List.map_map]
  rfl

theorem findUnitFragments_eq_nil_iff (us : List UInt16) :
    findUnitFragments us = [] ↔ findFragments (standIns us) = [] := by
  rw [findFragments_standIns, List.map_eq_nil_iff]

/-- A pass leaves all nodes but those that it found. -/
theorem length_unitOccurrences_reshapeUnits (us : List UInt16) :
    (unitOccurrences (reshapeUnits us)).length + (findUnitFragments us).length =
      (unitOccurrences us).length := by
  have hlength := length_occurrences_transform (standIns us)
  rwa [transform_standIns, findFragments_standIns, ← map_characters_unitOccurrences,
    ← map_characters_unitOccurrences, List.length_map, List.length_map, List.length_map] at hlength

theorem reshapeUnits_eq_self_iff (us : List UInt16) :
    reshapeUnits us = us ↔ findUnitFragments us = [] := by
  constructor
  · intro h
    apply (findUnitFragments_eq_nil_iff us).mpr
    apply (transform_eq_self_iff _).mp
    rw [transform_standIns, h]
  · intro h
    rw [reshapeUnits, h, spliceUnits]

/-- Every pass lowers the nesting of a unit text by one, until it is zero. -/
theorem unitNesting_iterate (n : ℕ) (us : List UInt16) :
    unitNesting (reshapeUnits^[n] us) = unitNesting us - n := by
  rw [unitNesting_eq, unitNesting_eq, ← transform_iterate_standIns, nesting_iterate]

/-- As many passes find something as there are nodes over one offset of the text. -/
theorem findUnitFragments_iterate_ne_nil_iff (n : ℕ) (us : List UInt16) :
    findUnitFragments (reshapeUnits^[n] us) ≠ [] ↔ n < unitNesting us := by
  rw [ne_eq, findUnitFragments_eq_nil_iff, ← transform_iterate_standIns, unitNesting_eq]
  exact findFragments_iterate_ne_nil_iff n (standIns us)

/-- One pass is enough exactly when no two nodes of a unit text overlap. -/
theorem reshapeUnits_reshapeUnits_eq_iff (us : List UInt16) :
    reshapeUnits (reshapeUnits us) = reshapeUnits us ↔
      ∀ f ∈ unitOccurrences us, ∀ g ∈ unitOccurrences us, f.index < g.index → f.stop ≤ g.index := by
  have hiff := transform_transform_eq_iff (standIns us)
  rw [transform_eq_self_iff, transform_standIns, ← findUnitFragments_eq_nil_iff,
    ← map_characters_unitOccurrences] at hiff
  rw [reshapeUnits_eq_self_iff, hiff]
  simp only [List.forall_mem_map]
  rfl

end Nesting

section Kept

theorem standIn_eq_iff {u : UInt16} {c : Char} (hc : c.toNat < 0xD800) :
    standIn u.toNat = c ↔ u = UInt16.ofNat c.toNat := by
  rw [← Char.toNat_inj, toNat_standIn_eq_iff hc, ← UInt16.toNat_inj, toNat_unit (by omega)]

theorem unitsOf_standIn {u : UInt16} (hu : u.toNat < 0xD800) : unitsOf (standIn u.toNat) = [u] := by
  have hvalid : u.toNat.isValidChar := .inl hu
  rw [standIn, if_pos hvalid, unitsOf, toNat_ofNat_of_valid hvalid, if_pos (by omega),
    UInt16.ofNat_toNat]

/-- Units below the surrogates are those of the characters that stand in. -/
theorem toUnits_standIns {us : List UInt16} (h : ∀ u ∈ us, u.toNat < 0xD800) :
    toUnits (standIns us) = us := by
  induction us with
  | nil => rfl
  | cons u us ih =>
    obtain ⟨hu, hus⟩ := List.forall_mem_cons.mp h
    rw [standIns_cons, toUnits_cons, unitsOf_standIn hu, ih hus, List.singleton_append]

/-- The parentheses and quotes of a unit text, in order. -/
def unitDelimiters (us : List UInt16) : List UInt16 :=
  us.filter fun u => u = 0x28 || u = 0x29 || u = 0x22

theorem toUnits_delimiters (us : List UInt16) :
    toUnits (delimiters (standIns us)) = unitDelimiters us := by
  have hsame (u : UInt16) : (decide (standIn u.toNat = '(') || decide (standIn u.toNat = ')') ||
      decide (standIn u.toNat = '"')) = (decide (u = 0x28) || decide (u = 0x29) ||
        decide (u = 0x22)) := by
    have hopen : standIn u.toNat = '(' ↔ u = 0x28 := standIn_eq_iff (by decide)
    have hclose : standIn u.toNat = ')' ↔ u = 0x29 := standIn_eq_iff (by decide)
    have hquote : standIn u.toNat = '"' ↔ u = 0x22 := standIn_eq_iff (by decide)
    simp only [hopen, hclose, hquote]
  have hfilter : delimiters (standIns us) = standIns (unitDelimiters us) := by
    rw [delimiters, standIns, List.filter_map]
    simp only [Function.comp_def, hsame]
    rfl
  rw [hfilter]
  apply toUnits_standIns
  intro u hu
  have hmem := (List.mem_filter.mp hu).2
  simp only [Bool.or_eq_true, decide_eq_true_eq, or_assoc] at hmem
  rcases hmem with rfl | rfl | rfl <;> decide

/-- Reshaping adds, drops and moves no parenthesis and no quote of a unit text. -/
theorem unitDelimiters_reshapeUnits (us : List UInt16) :
    unitDelimiters (reshapeUnits us) = unitDelimiters us := by
  rw [← toUnits_delimiters, ← toUnits_delimiters, ← transform_standIns, transform_eq_stream,
    delimiters_stream]

/-- When the type and `inner` of every node are balanced together, reshaping neither balances a unit
text nor puts it out of balance. -/
theorem balanced_reshapeUnits_iff (us : List UInt16)
    (h : ∀ f ∈ findUnitFragments us, Balanced (standIns (f.ty ++ f.inner))) :
    Balanced (standIns (reshapeUnits us)) ↔ Balanced (standIns us) := by
  have hfound : ∀ f ∈ findFragments (standIns us), Balanced (f.ty ++ f.inner) := by
    rw [findFragments_standIns]
    intro c hc
    obtain ⟨f, hf, rfl⟩ := List.mem_map.mp hc
    have hf := h f hf
    rwa [standIns_append] at hf
  rw [← transform_standIns, balanced_iff_awaited, balanced_iff_awaited, transform_eq_stream,
    awaited_stream _ hfound]

/-- The number of places of a unit text at which these units stand. -/
def unitCount (w us : List UInt16) : ℕ := us.tails.countP fun vs => w.isPrefixOf vs

theorem isPrefix_standIns_iff {w : Text} (h : (w.all fun c => c.toNat < 0xD800) = true)
    (us : List UInt16) : w <+: standIns us ↔ toUnits w <+: us := by
  induction w generalizing us with
  | nil => simp
  | cons c w ih =>
    rw [List.all_cons, Bool.and_eq_true, decide_eq_true_eq] at h
    cases us with
    | nil => simp [standIns, unitsOf, Nat.lt_trans h.1]
    | cons u us =>
      have hu : unitsOf c = [UInt16.ofNat c.toNat] := if_pos (by omega)
      have hhead : c = standIn u.toNat ↔ UInt16.ofNat c.toNat = u := by
        rw [eq_comm, standIn_eq_iff h.1, eq_comm]
      rw [standIns_cons, toUnits_cons, hu, List.singleton_append, List.cons_prefix_cons,
        List.cons_prefix_cons, hhead, ih h.2]

theorem wordCount_standIns {w : Text} (h : (w.all fun c => c.toNat < 0xD800) = true)
    (us : List UInt16) : wordCount w (standIns us) = unitCount (toUnits w) us := by
  have htails : (standIns us).tails = us.tails.map standIns := by
    induction us with
    | nil => rfl
    | cons u us ih =>
      rw [standIns_cons, List.tails_cons, List.tails_cons, List.map_cons, ih]
      rfl
  rw [wordCount, unitCount, htails, List.countP_map]
  apply List.countP_congr
  intro vs _
  simp [isPrefix_standIns_iff h]

/-- Every node found takes one `ty:` out of a unit text. -/
theorem unitCount_reshapeUnits (us : List UInt16) :
    unitCount (toUnits OldNode.tyKey) (reshapeUnits us) + (findUnitFragments us).length =
      unitCount (toUnits OldNode.tyKey) us := by
  have hcount := wordCount_transform (standIns us)
  rwa [transform_standIns, findFragments_standIns, List.length_map, wordCount_standIns (by decide),
    wordCount_standIns (by decide)] at hcount

end Kept

end NodeReshape
