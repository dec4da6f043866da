import NodeReshape.Proofs.UnitMatching

/-!
# Characters that stand in for units

The old shape asks of a number in a text only whether it is that of a certain character. So every
unit of a text can be replaced by a character of one unit, surrogates by one that the shape does not
mention: nodes are found in the same places, and reshaping goes on alike. What holds of the places
of nodes in all documents holds of unit texts too, in which surrogates need not be in pairs.
-/
namespace NodeReshape

/-- The character of this number, or U+FFFD when no character has it. -/
def standIn (n : ℕ) : Char := if n.isValidChar then Char.ofNat n else Utf8.replacement

theorem standIn_toNat (c : Char) : standIn c.toNat = c := by
  have hvalid : c.toNat.isValidChar := c.valid
  rw [standIn, if_pos hvalid, Char.ofNat_toNat]

theorem isBlank_standIn (n : ℕ) : isBlank (standIn n) = isBlank (Char.ofNat n) := by
  rw [standIn]
  split
  case isTrue hn => rfl
  case isFalse hn =>
    rw [Char.ofNat, dif_neg hn]
    rfl

theorem toNat_standIn_eq_iff {n : ℕ} {c : Char} (hc : c.toNat < 0xD800) :
    (standIn n).toNat = c.toNat ↔ n = c.toNat := by
  constructor
  · intro h
    rw [standIn] at h
    split at h
    case isTrue hn => rwa [toNat_ofNat_of_valid hn] at h
    case isFalse hn =>
      have hr : Utf8.replacement.toNat = 0xFFFD := rfl
      omega
  · rintro rfl
    rw [standIn_toNat]

/-- The characters that stand in for the units of a text, one for each. -/
def standIns (us : List UInt16) : Text := us.map fun u => standIn u.toNat

theorem standIns_cons (u : UInt16) (us : List UInt16) :
    standIns (u :: us) = standIn u.toNat :: standIns us := rfl

theorem standIns_append (us vs : List UInt16) : standIns (us ++ vs) = standIns us ++ standIns vs :=
  List.map_append

theorem standIns_flatten (pieces : List (List UInt16)) :
    standIns pieces.flatten = (pieces.map standIns).flatten := List.map_flatten

theorem length_standIns (us : List UInt16) : (standIns us).length = us.length := List.length_map _

theorem width_standIn (u : UInt16) : width (standIn u.toNat) = 1 := by
  have hlt := u.toNat_lt
  rw [width, if_pos]
  rw [standIn]
  split
  case isTrue hn => rwa [toNat_ofNat_of_valid hn]
  case isFalse hn => decide

theorem units_standIns (us : List UInt16) : units (standIns us) = us.length := by
  induction us with
  | nil => rfl
  | cons u us ih =>
    rw [standIns_cons, units_cons, width_standIn, ih, List.length_cons, Nat.add_comm]

section Scan

theorem takeWord_standIns {w : Text} (h : (w.all fun c => c.toNat < 0xD800) = true)
    (us : List UInt16) : takeWord Char.toNat w (standIns us) =
      (takeWord UInt16.toNat w us).map fun s => (standIns s.1, standIns s.2) := by
  induction w generalizing us with
  | nil => rfl
  | cons c w ih =>
    rw [List.all_cons, Bool.and_eq_true, decide_eq_true_eq] at h
    cases us with
    | nil => rfl
    | cons u us =>
      rw [standIns_cons, takeWord, takeWord, ih h.2 us]
      simp only [toNat_standIn_eq_iff h.1]
      split
      · rw [Option.map_map, Option.map_map]
        rfl
      · rfl

/-- Every part takes as much of the characters as of the text for which they stand in. -/
theorem longest?_standIns {i : Part} (h : i.IsNarrow = true) (us : List UInt16) :
    i.longest? Char.toNat (standIns us) =
      (i.longest? UInt16.toNat us).map fun s => (standIns s.1, standIns s.2) := by
  cases i with
  | word w => exact takeWord_standIns h us
  | blanks =>
    have hblank : isBlankMember Char.toNat ∘ (fun u => standIn u.toNat) =
        isBlankMember UInt16.toNat := by
      funext u
      rw [Function.comp_apply, isBlankMember_char, isBlank_standIn]
      rfl
    simp [Part.longest?, standIns, List.takeWhile_map, List.dropWhile_map, hblank]
  | run stop =>
    rw [Part.IsNarrow, decide_eq_true_eq] at h
    have hdiffers (u : UInt16) : differs Char.toNat stop (standIn u.toNat) =
        differs UInt16.toNat stop u := by
      rw [differs, differs, Bool.eq_iff_iff, bne_iff_ne, bne_iff_ne, ne_eq, ne_eq,
        toNat_standIn_eq_iff h]
    have hrun : differs Char.toNat stop ∘ (fun u => standIn u.toNat) = differs UInt16.toNat stop :=
      funext hdiffers
    cases us with
    | nil => rfl
    | cons u us =>
      simp only [standIns, List.map_cons, Part.longest?, hdiffers, List.takeWhile_map,
        List.dropWhile_map, hrun]
      split <;> rfl
  | opening => rfl
  | closing => rfl

theorem greedy?_standIns {p : List Part} (h : p.all Part.IsNarrow = true) (us : List UInt16) :
    greedy? Char.toNat p (standIns us) =
      (greedy? UInt16.toNat p us).map fun r => (r.1.map standIns, standIns r.2) := by
  induction p generalizing us with
  | nil => rfl
  | cons i p ih =>
    rw [List.all_cons, Bool.and_eq_true] at h
    simp only [greedy?, longest?_standIns h.1, ih h.2, Option.bind_map, Option.map_bind,
      Option.map_map, Function.comp_def, List.map_cons]

/-- A node is read in the characters where one scan finds it in the text. -/
theorem read?_standIns (us : List UInt16) :
    ((OldNode.read? (standIns us)).map fun r => (r.1.pieces, r.2)) =
      (greedy? UInt16.toNat oldShape us).map fun r => (r.1.map standIns, standIns r.2) := by
  rw [← greedy?_oldShape]
  exact greedy?_standIns (by decide) us

theorem captures_map {α β : Type} (f : α → β) (l : List (Part × List α)) :
    captures (l.map fun s => (s.1, s.2.map f)) = (captures l).map (List.map f) := by
  fun_induction captures l with
  | case1 => rfl
  | case2 s rest ih =>
    rw [List.map_cons, List.map_cons, ← ih, captures, List.takeWhile_map, List.map_flatMap,
      List.flatMap_map]
    rfl
  | case3 s rest hs ih =>
    obtain ⟨i, s⟩ := s
    rw [List.map_cons, ← ih]
    cases i with
    | opening => exact absurd rfl (hs s)
    | word | blanks | run | closing => rfl

end Scan

/-- The fragment in the characters that stand in, at the same place. -/
def UnitFragment.characters (f : UnitFragment) : Fragment :=
  ⟨standIns f.name, standIns f.ty, standIns f.inner, f.index, f.length⟩

theorem OldNode.captures_pieces (n : OldNode) :
    captures (oldShape.zip n.pieces) = [n.name, n.ty, n.inner] := by
  simp [OldNode.pieces, QuotedEntry.pieces, oldShape, entryShape, innerShape, captures,
    OldNode.name, OldNode.ty, OldNode.inner]

/-- What one scan finds at the front of a text is a node in the characters. -/
theorem exists_read?_of_greedy? {us rest : List UInt16} {pieces : List (List UInt16)}
    (h : greedy? UInt16.toNat oldShape us = some (pieces, rest)) (index : ℕ) :
    ∃ n, OldNode.read? (standIns us) = some (n, standIns rest) ∧
      n.spelling.length = pieces.flatten.length ∧
      n.fragment index = (UnitMatch.mk index pieces).fragment.characters := by
  have hread := read?_standIns us
  rw [h, Option.map_some, Option.map_eq_some_iff] at hread
  obtain ⟨⟨n, rest'⟩, hread, heq⟩ := hread
  obtain ⟨hpieces, rfl⟩ := Prod.mk.inj heq
  have hspelling : n.spelling = standIns pieces.flatten := by
    rw [← n.flatten_pieces, hpieces, standIns_flatten]
  have hsize : units n.spelling = pieces.flatten.length := by rw [hspelling, units_standIns]
  refine ⟨n, hread, ?_, ?_⟩
  · rw [hspelling, length_standIns]
  · have hcaptures : (captures (oldShape.zip pieces)).map standIns = [n.name, n.ty, n.inner] := by
      rw [← n.captures_pieces, hpieces, List.zip_map_right]
      exact (captures_map (fun u : UInt16 => standIn u.toNat) _).symm
    have htext (k : ℕ) : standIns ((captures (oldShape.zip pieces)).getD k []) =
        [n.name, n.ty, n.inner].getD k [] := by
      rw [← hcaptures, List.getD_eq_getElem?_getD, List.getD_eq_getElem?_getD, List.getElem?_map]
      exact (Option.getD_map standIns [] _).symm
    simp only [OldNode.fragment, UnitMatch.fragment, UnitFragment.characters, htext, hsize,
      UnitMatch.length, List.getD_cons_zero, List.getD_cons_succ]

/-- What is found in the units of a text and in the characters that stand in are the same nodes. -/
theorem map_characters_unitMatchesFrom (us : List UInt16) (pending offset : ℕ) :
    (unitMatchesFrom pending offset us).map (fun m => m.fragment.characters) =
      scan pending offset (standIns us) := by
  induction us generalizing pending offset with
  | nil => rfl
  | cons u us ih =>
    cases pending with
    | succ k =>
      rw [unitMatchesFrom, standIns_cons, scan, width_standIn]
      exact ih k (offset + 1)
    | zero =>
      rw [unitMatchesFrom, choices_eq_greedy? decisive_oldShape, Option.head?_toList]
      cases hgreedy : greedy? UInt16.toNat oldShape (u :: us) with
      | none =>
        have hread : OldNode.read? (standIns (u :: us)) = none := by
          have h := read?_standIns (u :: us)
          rwa [hgreedy, Option.map_none, Option.map_eq_none_iff] at h
        rw [standIns_cons] at hread ⊢
        rw [scan_eq_of_read?_eq_none offset hread, width_standIn]
        exact ih 0 (offset + 1)
      | some r =>
        obtain ⟨pieces, rest⟩ := r
        obtain ⟨n, hread, hlength, hfragment⟩ := exists_read?_of_greedy? hgreedy offset
        rw [standIns_cons] at hread ⊢
        rw [scan, hread, width_standIn]
        dsimp only
        rw [List.map_cons, ih, hlength, hfragment]

theorem findFragments_standIns (us : List UInt16) :
    findFragments (standIns us) = (findUnitFragments us).map UnitFragment.characters := by
  rw [findUnitFragments, List.map_map]
  exact (map_characters_unitMatchesFrom us 0 0).symm

/-- Stand-ins are cut where units are. -/
theorem takeUnits_standIns (n : ℕ) (us : List UInt16) :
    takeUnits n (standIns us) = standIns (us.take n) := by
  induction us generalizing n with
  | nil => cases n <;> rfl
  | cons u us ih =>
    cases n with
    | zero => rfl
    | succ n =>
      rw [standIns_cons, takeUnits, width_standIn, Nat.add_sub_cancel, ih]
      rfl

theorem dropUnits_standIns (n : ℕ) (us : List UInt16) :
    dropUnits n (standIns us) = standIns (us.drop n) := by
  induction us generalizing n with
  | nil => cases n <;> rfl
  | cons u us ih =>
    cases n with
    | zero => rfl
    | succ n =>
      rw [standIns_cons, dropUnits, width_standIn, Nat.add_sub_cancel, ih, List.drop_succ_cons]

/-- A word without characters from the surrogates on stands in for its own units. -/
theorem standIns_toUnits {w : Text} (h : (w.all fun c => c.toNat < 0xD800) = true) :
    standIns (toUnits w) = w := by
  induction w with
  | nil => rfl
  | cons c w ih =>
    rw [List.all_cons, Bool.and_eq_true, decide_eq_true_eq] at h
    rw [toUnits_cons, standIns_append, ih h.2]
    rcases unitsOf_cases c with ⟨u, he, hn, -⟩ | ⟨u, v, -, -, -, hn⟩
    · rw [he, standIns_cons, hn, standIn_toNat]
      rfl
    · omega

theorem render_characters (f : UnitFragment) : f.characters.render = standIns f.render := by
  have hname : standIns (toUnits ('(' :: (newFrame.beforeName ++ ['"']))) = _ :=
    standIns_toUnits (by decide)
  have hty : standIns (toUnits ('"' :: (newFrame.beforeTy ++ ['"']))) = _ :=
    standIns_toUnits (by decide)
  have hinner : standIns (toUnits ('"' :: newFrame.beforeInner)) = _ :=
    standIns_toUnits (by decide)
  have hbehind : standIns (toUnits newFrame.behind) = _ := standIns_toUnits (by decide)
  rw [Fragment.render, renderNode_eq_write, UnitFragment.render]
  simp only [standIns_append, hname, hty, hinner, hbehind]
  simp [UnitFragment.characters, Frame.write]

theorem splice_standIns (us : List UInt16) (cursor : ℕ) (fs : List UnitFragment) :
    splice (standIns us) cursor (fs.map UnitFragment.characters) =
      standIns (spliceUnits us cursor fs) := by
  induction fs generalizing us cursor with
  | nil => rfl
  | cons f fs ih =>
    have hindex : f.characters.index = f.index := rfl
    have hstop : f.characters.stop = f.stop := rfl
    rw [List.map_cons, splice, spliceUnits, hindex, hstop, takeUnits_standIns, dropUnits_standIns,
      ih, render_characters, standIns_append, standIns_append]

/-- The units of a document are reshaped like the characters that stand in for them. -/
theorem transform_standIns (us : List UInt16) :
    transform (standIns us) = standIns (reshapeUnits us) := by
  rw [transform, output_reshape, findFragments_standIns, splice_standIns, reshapeUnits]

/-- This stays so when the reshaping is repeated. -/
theorem transform_iterate_standIns (n : ℕ) (us : List UInt16) :
    transform^[n] (standIns us) = standIns (reshapeUnits^[n] us) :=
  (Function.Semiconj.iterate_right (fun us => (transform_standIns us).symm) n us).symm

end NodeReshape
