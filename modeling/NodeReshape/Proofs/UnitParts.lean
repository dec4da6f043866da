import NodeReshape.Proofs.AppendedText
import NodeReshape.Proofs.DocumentCut
import NodeReshape.Proofs.UnitDocuments

/-!
# Parts of a document in units

What a node takes off the front of a text it takes off every longer text, so appended units leave
the nodes that were found, and the output up to the last of them. A unit text is reshaped part by
part exactly when it is cut outside its nodes, even where the cut parts a pair of surrogates. With
one node or one unit as the first part, this makes the reshaping a single pass.
-/
namespace NodeReshape

section Appended

variable {us : List UInt16} {start : ℕ} {f : UnitFragment}

theorem Chosen.append {α : Type} {number : α → ℕ} {p : List Part} {ks : List ℕ} {t rest : List α}
    {pieces : List (List α)} (h : Chosen number p ks t pieces rest) (v : List α) :
    Chosen number p ks (t ++ v) pieces (rest ++ v) := by
  induction h with
  | nil t => exact .nil _
  | fixed hi hs _ ih =>
    rw [List.append_assoc]
    exact .fixed hi hs ih
  | repetition hi hs _ ih =>
    rw [List.append_assoc]
    exact .repetition hi hs ih

theorem scanUnits?_append_right (h : scanUnits? us start = some f) (vs : List UInt16) :
    scanUnits? (us ++ vs) start = some f := by
  have hstart := lt_stop_of_scanUnits? h
  have hstop := stop_le_of_scanUnits? h
  obtain ⟨ks, pieces, rest, hchosen, hf⟩ := scanUnits?_eq_some_iff.mp h
  refine scanUnits?_eq_some_iff.mpr ⟨ks, pieces, rest ++ vs, ?_, hf⟩
  rw [List.drop_append_of_le_length (by omega)]
  exact hchosen.append vs

theorem scanUnits?_append_left (h : scanUnits? us start = some f) (ws : List UInt16) :
    scanUnits? (ws ++ us) (start + ws.length) = some (f.moved ws.length) := by
  obtain ⟨r, hr, rfl⟩ := Option.map_eq_some_iff.mp h
  have hdrop : (ws ++ us).drop (start + ws.length) = us.drop start := by
    rw [Nat.add_comm, List.drop_length_add_append]
  rw [scanUnits?, hdrop, hr]
  rfl

/-- Appended units leave the nodes that were found. -/
theorem findUnitFragments_isPrefix (us vs : List UInt16) :
    findUnitFragments us <+: findUnitFragments (us ++ vs) := by
  refine isPrefix_of_map_index (fun f hf => scanUnits?_append_right (scanUnits?_of_mem hf) vs)
    (fun g hg => scanUnits?_of_mem hg) ?_
  obtain ⟨ps, tail, qs, tail', h, h'⟩ := exists_divides_append (standIns us) (standIns vs)
  rw [map_index_findUnitFragments, map_index_findUnitFragments, standIns_append,
    h.findFragments_eq, h'.findFragments_eq, fragmentsAt_append, List.map_append]
  exact List.prefix_append _ _

end Appended

section Splice

/-- The nodes lie between two offsets, each behind the one before it. -/
def InOrder (cursor size : ℕ) : List UnitFragment → Prop
  | [] => cursor ≤ size
  | f :: fs => cursor ≤ f.index ∧ InOrder f.stop size fs

/-- The offset behind the last of these nodes. -/
def lastStop (cursor : ℕ) (fs : List UnitFragment) : ℕ := fs.foldl (fun _ f => f.stop) cursor

theorem UnitFragment.index_le_stop (f : UnitFragment) : f.index ≤ f.stop := Nat.le_add_right _ _

theorem inOrder_of_pairwise {cursor size : ℕ} {fs : List UnitFragment} (hsize : cursor ≤ size)
    (apart : fs.Pairwise fun f g => f.stop ≤ g.index) (hcursor : ∀ f ∈ fs, cursor ≤ f.index)
    (hstop : ∀ f ∈ fs, f.stop ≤ size) : InOrder cursor size fs := by
  induction fs generalizing cursor with
  | nil => exact hsize
  | cons f fs ih =>
    obtain ⟨hf, apart⟩ := List.pairwise_cons.mp apart
    exact ⟨hcursor f List.mem_cons_self, ih (hstop f List.mem_cons_self) apart hf
      fun g hg => hstop g (List.mem_cons_of_mem _ hg)⟩

theorem inOrder_findUnitFragments (us : List UInt16) :
    InOrder 0 us.length (findUnitFragments us) := by
  apply inOrder_of_pairwise (Nat.zero_le _) (unitListing_findUnitFragments us).apart
  · exact fun f _ => Nat.zero_le _
  · exact fun f hf => stop_le_of_scanUnits? (scanUnits?_of_mem hf)

theorem InOrder.lastStop_le {cursor size : ℕ} {fs : List UnitFragment}
    (h : InOrder cursor size fs) : cursor ≤ lastStop cursor fs ∧ lastStop cursor fs ≤ size := by
  induction fs generalizing cursor with
  | nil => exact ⟨Nat.le_refl _, h⟩
  | cons f fs ih =>
    obtain ⟨hle, hfs⟩ := ih h.2
    exact ⟨(h.1.trans f.index_le_stop).trans hle, hfs⟩

/-- The output up to the last of some nodes does not depend on what follows it. -/
theorem exists_front_spliceUnits {us : List UInt16} {cursor : ℕ} {fs : List UnitFragment}
    (h : InOrder cursor (cursor + us.length) fs) :
    ∃ front, ∀ vs gs, spliceUnits (us ++ vs) cursor (fs ++ gs) = front ++
      spliceUnits (us.drop (lastStop cursor fs - cursor) ++ vs) (lastStop cursor fs) gs := by
  induction fs generalizing us cursor with
  | nil =>
    refine ⟨[], fun vs gs => ?_⟩
    simp [lastStop]
  | cons f fs ih =>
    obtain ⟨hcursor, h⟩ := h
    have hindex := f.index_le_stop
    obtain ⟨hlast, hsize⟩ := h.lastStop_le
    have hrest : f.stop + (us.drop (f.stop - cursor)).length = cursor + us.length := by
      rw [List.length_drop]
      omega
    rw [← hrest] at h
    obtain ⟨front, hfront⟩ := ih h
    refine ⟨us.take (f.index - cursor) ++ (f.render ++ front), fun vs gs => ?_⟩
    have hdrop : (us.drop (f.stop - cursor)).drop (lastStop f.stop fs - f.stop) =
        us.drop (lastStop cursor (f :: fs) - cursor) := by
      rw [List.drop_drop]
      congr 1
      change f.stop - cursor + (lastStop f.stop fs - f.stop) = lastStop f.stop fs - cursor
      omega
    rw [List.cons_append, spliceUnits, List.take_append_of_le_length (by omega),
      List.drop_append_of_le_length (by omega), hfront, hdrop, List.append_assoc, List.append_assoc]
    rfl

theorem spliceUnits_moved (us : List UInt16) (cursor distance : ℕ) (fs : List UnitFragment) :
    spliceUnits us (cursor + distance) (fs.map (UnitFragment.moved distance)) =
      spliceUnits us cursor fs := by
  induction fs generalizing us cursor with
  | nil => rfl
  | cons f fs ih =>
    have hrender : (f.moved distance).render = f.render := rfl
    rw [List.map_cons, spliceUnits, spliceUnits, f.index_moved, f.stop_moved,
      Nat.add_sub_add_right, Nat.add_sub_add_right, hrender, ih]

/-- What follows a text is spliced behind the output up to the last node of the text. -/
theorem exists_settled (us : List UInt16) :
    ∃ settled, reshapeUnits us = settled ++ us.drop (lastStop 0 (findUnitFragments us)) ∧
      ∀ vs gs, spliceUnits (us ++ vs) 0 (findUnitFragments us ++ gs) =
        settled ++ spliceUnits (us.drop (lastStop 0 (findUnitFragments us)) ++ vs)
          (lastStop 0 (findUnitFragments us)) gs := by
  have horder := inOrder_findUnitFragments us
  rw [← Nat.zero_add us.length] at horder
  obtain ⟨settled, hsettled⟩ := exists_front_spliceUnits horder
  rw [Nat.sub_zero] at hsettled
  refine ⟨settled, ?_, hsettled⟩
  have hsame := hsettled [] []
  rwa [List.append_nil, List.append_nil, List.append_nil, spliceUnits] at hsame

/-- Appended units leave the output up to the last node that was found. -/
theorem reshapeUnits_append_isPrefix (us vs : List UInt16) :
    ∃ settled, reshapeUnits us = settled ++ us.drop (lastStop 0 (findUnitFragments us)) ∧
      settled <+: reshapeUnits (us ++ vs) := by
  obtain ⟨settled, hus, hsettled⟩ := exists_settled us
  obtain ⟨gs, hgs⟩ := findUnitFragments_isPrefix us vs
  refine ⟨settled, hus, ?_⟩
  rw [reshapeUnits, ← hgs, hsettled]
  exact List.prefix_append _ _

end Splice

section Cut

variable {us vs : List UInt16}

/-- No node begins in front of the cut and ends behind it. -/
def UncutUnits (fragments : List UnitFragment) (offset : ℕ) : Prop :=
  ∀ f ∈ fragments, ¬ (f.index < offset ∧ offset < f.stop)

theorem findUnitFragments_append (h : UncutUnits (findUnitFragments (us ++ vs)) us.length) :
    findUnitFragments (us ++ vs) =
      findUnitFragments us ++ (findUnitFragments vs).map (UnitFragment.moved us.length) := by
  have huncut : Uncut (scan 0 0 (standIns us ++ standIns vs)) (0 + units (standIns us)) := by
    rw [← standIns_append, ← findFragments, findFragments_standIns, Nat.zero_add, units_standIns]
    intro c hc
    obtain ⟨f, hf, rfl⟩ := List.mem_map.mp hc
    exact h f hf
  have hscan := (scan_append_stream_append huncut).1
  rw [Nat.zero_add, units_standIns, ← findFragments, ← findFragments,
    scan_eq_map_moved us.length] at hscan
  refine eq_of_map_index (fun f hf => scanUnits?_of_mem hf) ?_ ?_
  · intro f hf
    rcases List.mem_append.mp hf with hf | hf
    · exact scanUnits?_append_right (scanUnits?_of_mem hf) vs
    · obtain ⟨g, hg, rfl⟩ := List.mem_map.mp hf
      exact scanUnits?_append_left (scanUnits?_of_mem hg) us
  · have hmoved : Fragment.index ∘ Fragment.moved us.length =
        (· + us.length) ∘ Fragment.index := rfl
    have hmoved' : UnitFragment.index ∘ UnitFragment.moved us.length =
        (· + us.length) ∘ UnitFragment.index := rfl
    rw [map_index_findUnitFragments, standIns_append, hscan, List.map_append, List.map_append,
      List.map_map, List.map_map, hmoved, hmoved', ← List.map_map, ← List.map_map,
      map_index_findUnitFragments, map_index_findUnitFragments]

/-- The nodes of a unit text are those of its two parts, and both parts are reshaped on their own,
exactly when no node runs over the cut between them. -/
theorem uncutUnits_iff (us vs : List UInt16) :
    UncutUnits (findUnitFragments (us ++ vs)) us.length ↔
      findUnitFragments (us ++ vs) =
          findUnitFragments us ++ (findUnitFragments vs).map (UnitFragment.moved us.length) ∧
        reshapeUnits (us ++ vs) = reshapeUnits us ++ reshapeUnits vs := by
  constructor
  · intro h
    have hfound := findUnitFragments_append h
    obtain ⟨settled, hus, hsettled⟩ := exists_settled us
    obtain ⟨-, hlast⟩ := (inOrder_findUnitFragments us).lastStop_le
    have hend : lastStop 0 (findUnitFragments us) +
        (us.drop (lastStop 0 (findUnitFragments us))).length = us.length := by
      rw [List.length_drop]
      omega
    have hbehind : ∀ f ∈ (findUnitFragments vs).map (UnitFragment.moved us.length),
        us.length ≤ f.index := by
      intro f hf
      obtain ⟨g, -, rfl⟩ := List.mem_map.mp hf
      exact Nat.le_add_left _ _
    have hmoved := spliceUnits_moved vs 0 us.length (findUnitFragments vs)
    rw [Nat.zero_add] at hmoved
    refine ⟨hfound, ?_⟩
    calc reshapeUnits (us ++ vs)
        = settled ++ spliceUnits (us.drop (lastStop 0 (findUnitFragments us)) ++ vs)
            (lastStop 0 (findUnitFragments us))
            ((findUnitFragments vs).map (UnitFragment.moved us.length)) := by
          rw [reshapeUnits, hfound, hsettled]
      _ = settled ++ (us.drop (lastStop 0 (findUnitFragments us)) ++ reshapeUnits vs) := by
          rw [spliceUnits_append _ _ _ _ (by rwa [hend]), hend, hmoved, reshapeUnits]
      _ = reshapeUnits us ++ reshapeUnits vs := by rw [hus, List.append_assoc]
  · rintro ⟨hparts, -⟩ f hf ⟨hlt, hgt⟩
    rw [hparts] at hf
    rcases List.mem_append.mp hf with hf | hf
    · have hstop := stop_le_of_scanUnits? (scanUnits?_of_mem hf)
      omega
    · obtain ⟨g, -, rfl⟩ := List.mem_map.mp hf
      rw [g.index_moved] at hlt
      omega

end Cut

section OnePass

variable {us : List UInt16}

/-- A rewriting of unit texts in one pass: it writes a node anew where one scan finds it and goes on
behind it, and copies every other unit. -/
structure UnitOnePass (rewrite : List UInt16 → List UInt16) : Prop where
  empty : rewrite [] = []
  node : ∀ us f, scanUnits? us 0 = some f → rewrite us = f.render ++ rewrite (us.drop f.stop)
  plain : ∀ u us, scanUnits? (u :: us) 0 = none → rewrite (u :: us) = u :: rewrite us

theorem unitMatchesFrom_moved (us : List UInt16) (pending offset distance : ℕ) :
    (unitMatchesFrom pending (offset + distance) us).map UnitMatch.fragment =
      ((unitMatchesFrom pending offset us).map UnitMatch.fragment).map
        (UnitFragment.moved distance) := by
  induction us generalizing pending offset with
  | nil => rfl
  | cons u us ih =>
    cases pending with
    | succ k =>
      rw [unitMatchesFrom, unitMatchesFrom, Nat.add_right_comm]
      exact ih k (offset + 1)
    | zero =>
      rw [unitMatchesFrom, unitMatchesFrom, Nat.add_right_comm]
      cases (choices UInt16.toNat oldShape (u :: us)).head? with
      | none => exact ih 0 (offset + 1)
      | some r =>
        dsimp only
        rw [List.map_cons, List.map_cons, List.map_cons, ih]
        rfl

theorem map_fragment_unitMatchesFrom_zero (us : List UInt16) (offset : ℕ) :
    (unitMatchesFrom 0 offset us).map UnitMatch.fragment =
      (findUnitFragments us).map (UnitFragment.moved offset) := by
  rw [findUnitFragments, unitMatches, ← unitMatchesFrom_moved, Nat.zero_add]

theorem unitMatchesFrom_drop {pending : ℕ} (h : pending ≤ us.length) (offset : ℕ) :
    unitMatchesFrom pending offset us = unitMatchesFrom 0 (offset + pending) (us.drop pending) := by
  have hpending := unitMatchesFrom_pending (us.take pending) (us.drop pending) offset
  rwa [List.take_append_drop, List.length_take, Nat.min_eq_left h] at hpending

theorem findUnitFragments_node {f : UnitFragment} (h : scanUnits? us 0 = some f) :
    findUnitFragments us =
      f :: (findUnitFragments (us.drop f.stop)).map (UnitFragment.moved f.stop) := by
  have hpos := lt_stop_of_scanUnits? h
  have hle := stop_le_of_scanUnits? h
  obtain ⟨⟨pieces, rest⟩, hscan, rfl⟩ := Option.map_eq_some_iff.mp h
  have hstop : (UnitMatch.mk 0 pieces).fragment.stop = pieces.flatten.length := Nat.zero_add _
  rw [hstop] at hpos hle ⊢
  cases us with
  | nil => exact absurd hle (Nat.not_le.mpr hpos)
  | cons u us =>
    obtain ⟨k, hk⟩ : ∃ k, pieces.flatten.length = k + 1 := ⟨_, (Nat.succ_pred_eq_of_pos hpos).symm⟩
    rw [hk, List.length_cons] at hle
    rw [List.drop_zero] at hscan
    rw [findUnitFragments, unitMatches, unitMatchesFrom, choices_eq_greedy? decisive_oldShape,
      Option.head?_toList, hscan]
    dsimp only
    rw [hk, Nat.add_sub_cancel, unitMatchesFrom_drop (by omega), List.map_cons,
      map_fragment_unitMatchesFrom_zero, List.drop_succ_cons, Nat.zero_add, Nat.add_comm 1]

theorem findUnitFragments_plain {u : UInt16} (h : scanUnits? (u :: us) 0 = none) :
    findUnitFragments (u :: us) = (findUnitFragments us).map (UnitFragment.moved 1) := by
  have hscan : greedy? UInt16.toNat oldShape (u :: us) = none := Option.map_eq_none_iff.mp h
  have hchoices : choices UInt16.toNat oldShape (u :: us) = [] := by
    rw [choices_eq_greedy? decisive_oldShape, hscan]
    rfl
  rw [findUnitFragments, unitMatches, unitMatchesFrom_skip 0 hchoices,
    map_fragment_unitMatchesFrom_zero]

/-- A unit text is reshaped in one pass. -/
theorem unitOnePass_reshapeUnits : UnitOnePass reshapeUnits where
  empty := rfl
  node us f h := by
    have hmoved := spliceUnits_moved (us.drop f.stop) 0 f.stop (findUnitFragments (us.drop f.stop))
    rw [Nat.zero_add] at hmoved
    rw [reshapeUnits, findUnitFragments_node h, spliceUnits, index_of_scanUnits? h, Nat.sub_zero,
      Nat.sub_zero, hmoved]
    rfl
  plain u us h := by
    have hbehind : ∀ f ∈ (findUnitFragments us).map (UnitFragment.moved 1),
        0 + [u].length ≤ f.index := by
      intro f hf
      obtain ⟨g, -, rfl⟩ := List.mem_map.mp hf
      exact Nat.le_add_left _ _
    have hcopied := spliceUnits_append [u] us 0 _ hbehind
    have hmoved := spliceUnits_moved us 0 1 (findUnitFragments us)
    rw [reshapeUnits, findUnitFragments_plain h]
    exact hcopied.trans (congrArg (u :: ·) hmoved)

end OnePass

end NodeReshape
